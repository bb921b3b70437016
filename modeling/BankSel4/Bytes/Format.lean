import BankSel4.Bytes.Basic
import Mathlib.Tactic.IntervalCases

/-!
# `printf` formats

`format fmt args` is what a format with the directives `%s` and `%d` makes of its arguments: the
format is cut into `pieces`, which are rendered one by one.  `sprintf` faults when the text and its
terminator do not fit the buffer, `snprintf` cuts the text off.

`%d` writes a `decimal`.  Its digits are digits (`isDigit_of_mem_digits`), and read back they give
the number (`ofDigits_digits`).
-/

namespace BankSel4

/-! ### Decimal numbers -/

/-- `'0' <= c && c <= '9'`. -/
def isDigit (c : UInt8) : Bool := 48 ≤ c && c ≤ 57

/-- The digits of a number. -/
def digits (n : Nat) : Str := (Nat.toDigits 10 n).map fun c => UInt8.ofNat c.toNat

/-- The value of a string of digits, read after the value `v`. -/
def ofDigits (v : Nat) (s : Str) : Nat := s.foldl (fun v c => 10 * v + (c.toNat - 48)) v

/-- What `%d` writes. -/
def decimal (i : Int) : Str := if i < 0 then 45 :: digits i.natAbs else digits i.natAbs

theorem isDigit_iff {c : UInt8} : isDigit c = true ↔ 48 ≤ c.toNat ∧ c.toNat ≤ 57 := by
  rw [isDigit, Bool.and_eq_true, decide_eq_true_iff, decide_eq_true_iff, UInt8.le_iff_toNat_le,
    UInt8.le_iff_toNat_le]
  exact Iff.rfl

/-- No digit is below `'0'`. -/
theorem not_le_of_isDigit {c d : UInt8} (hc : isDigit c = true) (hd : d < 48) : ¬ c ≤ d := by
  have hlo : 48 ≤ c.toNat := (isDigit_iff.mp hc).1
  have hlt : d.toNat < 48 := UInt8.lt_iff_toNat_lt.mp hd
  rw [UInt8.le_iff_toNat_le]
  omega

theorem ne_of_isDigit {c d : UInt8} (hc : isDigit c = true) (hd : d < 48 ∨ 57 < d) : c ≠ d := by
  rintro rfl
  rw [isDigit_iff] at hc
  rcases hd with hd | hd
  · exact Nat.not_lt.mpr hc.1 (UInt8.lt_iff_toNat_lt.mp hd)
  · exact Nat.not_lt.mpr hc.2 (UInt8.lt_iff_toNat_lt.mp hd)

theorem digit_eq {d : Nat} (h : d < 10) :
    UInt8.ofNat (Nat.digitChar d).toNat = UInt8.ofNat (48 + d) := by
  rw [Nat.toNat_digitChar_of_lt_ten h]

/-- The last digit comes off the end. -/
theorem digits_eq (n : Nat) :
    digits n = (if n < 10 then [] else digits (n / 10)) ++ [UInt8.ofNat (48 + n % 10)] := by
  unfold digits
  split_ifs with h
  · rw [Nat.toDigits_of_lt_base h, Nat.mod_eq_of_lt h, ← digit_eq h]
    rfl
  · rw [Nat.toDigits_of_base_le (by decide) (Nat.le_of_not_lt h), List.map_append,
      ← digit_eq (Nat.mod_lt n (by decide))]
    rfl

theorem isDigit_of_mem_digits {n : Nat} {c : UInt8} (h : c ∈ digits n) : isDigit c = true := by
  induction n using Nat.strongRecOn with
  | ind n ih =>
    rw [digits_eq, List.mem_append, List.mem_singleton] at h
    rcases h with h | rfl
    · split_ifs at h with hlt
      · exact absurd h List.not_mem_nil
      · exact ih (n / 10) (by omega) h
    · have hd : n % 10 < 10 := Nat.mod_lt n (by decide)
      interval_cases n % 10 <;> rfl

theorem ofDigits_append (v : Nat) (s t : Str) : ofDigits v (s ++ t) = ofDigits (ofDigits v s) t :=
  List.foldl_append

/-- Reading the digits of a number gives the number. -/
theorem ofDigits_digits (n : Nat) : ofDigits 0 (digits n) = n := by
  induction n using Nat.strongRecOn with
  | ind n ih =>
    have hlast : (UInt8.ofNat (48 + n % 10)).toNat - 48 = n % 10 := by
      rw [UInt8.toNat_ofNat']
      omega
    have hhead : ofDigits 0 (if n < 10 then [] else digits (n / 10)) = n / 10 := by
      split_ifs with hlt
      · rw [Nat.div_eq_of_lt hlt]
        rfl
      · exact ih (n / 10) (by omega)
    rw [digits_eq, ofDigits_append, hhead, ofDigits, List.foldl_cons, List.foldl_nil, hlast]
    omega

/-- The digits of a number start with a digit. -/
theorem exists_digits_eq_cons (n : Nat) : ∃ c s, digits n = c :: s := by
  rw [digits_eq]
  exact List.exists_cons_of_ne_nil (by simp)

theorem mem_decimal {i : Int} {c : UInt8} (h : c ∈ decimal i) : c = 45 ∨ isDigit c = true := by
  unfold decimal at h
  split_ifs at h
  · rcases List.mem_cons.mp h with rfl | h
    · exact Or.inl rfl
    · exact Or.inr (isDigit_of_mem_digits h)
  · exact Or.inr (isDigit_of_mem_digits h)

theorem length_digits_le {n k : Nat} (hk : 0 < k) (h : n < 10 ^ k) : (digits n).length ≤ k := by
  induction k generalizing n with
  | zero => omega
  | succ k ih =>
    rw [digits_eq, List.length_append, List.length_singleton]
    split_ifs with hn
    · exact Nat.succ_le_succ (Nat.zero_le k)
    · rw [pow_succ] at h
      have hpos : 0 < k := by
        by_contra hzero
        obtain rfl : k = 0 := by omega
        omega
      exact Nat.succ_le_succ (ih hpos (by omega))

/-- An `int` has at most eleven characters. -/
theorem length_decimal_le (i : Int32) : (decimal i.toInt).length ≤ 11 := by
  have hlo := i.le_toInt
  have hhi := i.toInt_lt
  -- ten digits, and the sign of a negative number
  have hdigits := length_digits_le (n := i.toInt.natAbs) (k := 10) (by decide) (by omega)
  unfold decimal
  split_ifs
  · exact Nat.succ_le_succ hdigits
  · omega

theorem decimal_ne_nil (i : Int) : decimal i ≠ [] := by
  obtain ⟨c, s, hcs⟩ := exists_digits_eq_cons i.natAbs
  unfold decimal
  split_ifs
  · exact List.cons_ne_nil _ _
  · rw [hcs]
    exact List.cons_ne_nil _ _

/-! ### Formats -/

/-- A piece of a format: text, or a directive. -/
inductive Piece where
  | text (s : Str)
  | str
  | int
  deriving DecidableEq, Repr

/-- An argument of a format. -/
inductive Arg where
  | str (s : Str)
  | int (i : Int)
  deriving DecidableEq, Repr

/-- A byte of text in front of the pieces. -/
def consText (c : UInt8) : List Piece → List Piece
  | .text s :: ps => .text (c :: s) :: ps
  | ps => .text [c] :: ps

/-- The pieces of a format; one with other directives than `%s` and `%d` has none. -/
def pieces : Str → Option (List Piece)
  | [] => some []
  | c :: fmt =>
    -- a `%` starts a directive
    if c = 37 then
      match fmt with
      | d :: fmt =>
        if d = 115 then (pieces fmt).map (.str :: ·)
        else if d = 100 then (pieces fmt).map (.int :: ·)
        else none
      | [] => none
    else (pieces fmt).map (consText c)

/-- The text of the pieces; a directive without an argument of its type has none. -/
def render : List Piece → List Arg → Option Str
  | [], _ => some []
  | .text s :: ps, args => (render ps args).map (s ++ ·)
  | .str :: ps, .str s :: args => (render ps args).map (s ++ ·)
  | .int :: ps, .int i :: args => (render ps args).map (decimal i ++ ·)
  | _ :: _, _ => none

/-- The text a format makes of its arguments; without it the call of `printf` is not defined. -/
def format (fmt : Str) (args : List Arg) : Option Str := (pieces fmt).bind (render · args)

/-- A text starts as its format does. -/
theorem take_of_format {fmt s text : Str} {ps : List Piece} {args : List Arg} {n : Nat}
    (hpieces : pieces fmt = some (.text s :: ps)) (htext : format fmt args = some text)
    (hn : n ≤ s.length) : text.take n = s.take n := by
  rw [format, hpieces, Option.bind_some, render, Option.map_eq_some_iff] at htext
  obtain ⟨rest, -, rfl⟩ := htext
  exact List.take_append_of_le_length hn

/-- The number of directives. -/
def directives : List Piece → Nat
  | [] => 0
  | .text _ :: ps => directives ps
  | _ :: ps => directives ps + 1

/-- The length of the text in the pieces. -/
def textLength : List Piece → Nat
  | [] => 0
  | .text s :: ps => s.length + textLength ps
  | _ :: ps => textLength ps

/-- The length of what a directive makes of its argument. -/
def Arg.length : Arg → Nat
  | .str s => s.length
  | .int i => (decimal i).length

/-- **The length of a formatted text**: its format's own text and its arguments. -/
theorem length_of_render {ps : List Piece} {args : List Arg} {text : Str}
    (h : render ps args = some text) (hargs : args.length = directives ps) :
    text.length = textLength ps + (args.map Arg.length).sum := by
  induction ps generalizing args text with
  | nil =>
    obtain rfl := Option.some.inj h
    obtain rfl := List.length_eq_zero_iff.mp hargs
    rfl
  | cons p ps ih =>
    cases p with
    | text s =>
      obtain ⟨rest, hrest, rfl⟩ := Option.map_eq_some_iff.mp h
      rw [List.length_append, ih hrest hargs, textLength, Nat.add_assoc]
    | str =>
      rcases args with _ | ⟨_ | _, args⟩
      · cases h
      · obtain ⟨rest, hrest, rfl⟩ := Option.map_eq_some_iff.mp h
        have hlen := ih hrest (Nat.succ.inj hargs)
        simp only [List.length_append, hlen, textLength, List.map_cons, List.sum_cons, Arg.length]
        omega
      · cases h
    | int =>
      rcases args with _ | ⟨_ | _, args⟩
      · cases h
      · cases h
      · obtain ⟨rest, hrest, rfl⟩ := Option.map_eq_some_iff.mp h
        have hlen := ih hrest (Nat.succ.inj hargs)
        simp only [List.length_append, hlen, textLength, List.map_cons, List.sum_cons, Arg.length]
        omega

/-- `sprintf` into a buffer of `size` bytes. -/
def sprintf (size : Nat) (fmt : Str) (args : List Arg) : Except Fault Str :=
  match format fmt args with
  | some text => if text.length < size then .ok text else .error .outOfBounds
  | none => .error .outOfBounds

/-- `snprintf` into a buffer of `size` bytes. -/
def snprintf (size : Nat) (fmt : Str) (args : List Arg) : Except Fault Str :=
  match format fmt args with
  | some text => .ok (text.take (size - 1))
  | none => .error .outOfBounds

/-! ### Texts without NUL -/

theorem noNul_decimal (i : Int) : NoNul (decimal i) := by
  intro hmem
  rcases mem_decimal hmem with h | h
  · exact absurd h (by decide)
  · exact absurd h (by decide)

theorem noNul_consText {c : UInt8} {ps : List Piece} (hc : c ≠ 0)
    (h : ∀ s, .text s ∈ ps → NoNul s) : ∀ s, .text s ∈ consText c ps → NoNul s := by
  intro s hs
  unfold consText at hs
  split at hs
  · rename_i t ps
    rcases List.mem_cons.mp hs with heq | hs
    · rw [Piece.text.inj heq]
      exact noNul_cons.mpr ⟨hc, h t List.mem_cons_self⟩
    · exact h s (List.mem_cons_of_mem _ hs)
  · rcases List.mem_cons.mp hs with heq | hs
    · rw [Piece.text.inj heq]
      exact noNul_cons.mpr ⟨hc, List.not_mem_nil⟩
    · exact h s hs

/-- A directive is no text. -/
theorem noNul_directive {p : Piece} {ps : List Piece} (hp : ∀ s, p ≠ .text s)
    (h : ∀ s, .text s ∈ ps → NoNul s) : ∀ s, .text s ∈ p :: ps → NoNul s := by
  intro s hs
  rcases List.mem_cons.mp hs with heq | hs
  · exact absurd heq.symm (hp s)
  · exact h s hs

theorem noNul_pieces {fmt : Str} {ps : List Piece} (hfmt : NoNul fmt) (h : pieces fmt = some ps) :
    ∀ s, .text s ∈ ps → NoNul s := by
  induction fmt using pieces.induct generalizing ps with
  | case1 =>
    obtain rfl := Option.some.inj h
    exact nofun
  | case2 fmt ih =>
    obtain ⟨ps', hps', rfl⟩ := Option.map_eq_some_iff.mp h
    exact noNul_directive (fun s => Piece.noConfusion)
      (ih (noNul_cons.mp (noNul_cons.mp hfmt).2).2 hps')
  | case3 fmt hne ih =>
    obtain ⟨ps', hps', rfl⟩ := Option.map_eq_some_iff.mp h
    exact noNul_directive (fun s => Piece.noConfusion)
      (ih (noNul_cons.mp (noNul_cons.mp hfmt).2).2 hps')
  | case4 d fmt hs hd => simp [pieces, hs, hd] at h
  | case5 => simp [pieces] at h
  | case6 c fmt hc ih =>
    unfold pieces at h
    rw [if_neg hc] at h
    obtain ⟨ps', hps', rfl⟩ := Option.map_eq_some_iff.mp h
    obtain ⟨hc0, hfmt'⟩ := noNul_cons.mp hfmt
    exact noNul_consText hc0 (ih hfmt' hps')

theorem noNul_render {ps : List Piece} {args : List Arg} {text : Str}
    (hps : ∀ s, .text s ∈ ps → NoNul s) (hargs : ∀ s, .str s ∈ args → NoNul s)
    (h : render ps args = some text) : NoNul text := by
  induction ps generalizing args text with
  | nil =>
    rw [← Option.some.inj h]
    exact List.not_mem_nil
  | cons p ps ih =>
    have hps' : ∀ s, .text s ∈ ps → NoNul s := fun s hs => hps s (List.mem_cons_of_mem _ hs)
    cases p with
    | text s =>
      obtain ⟨rest, hrest, rfl⟩ := Option.map_eq_some_iff.mp h
      exact noNul_append.mpr ⟨hps s List.mem_cons_self, ih hps' hargs hrest⟩
    | str =>
      rcases args with _ | ⟨s | i, args⟩
      · cases h
      · obtain ⟨rest, hrest, rfl⟩ := Option.map_eq_some_iff.mp h
        have hargs' : ∀ s, .str s ∈ args → NoNul s := fun s hs =>
          hargs s (List.mem_cons_of_mem _ hs)
        exact noNul_append.mpr ⟨hargs s List.mem_cons_self, ih hps' hargs' hrest⟩
      · cases h
    | int =>
      rcases args with _ | ⟨s | i, args⟩
      · cases h
      · cases h
      · obtain ⟨rest, hrest, rfl⟩ := Option.map_eq_some_iff.mp h
        have hargs' : ∀ s, .str s ∈ args → NoNul s := fun s hs =>
          hargs s (List.mem_cons_of_mem _ hs)
        exact noNul_append.mpr ⟨noNul_decimal i, ih hps' hargs' hrest⟩

/-- What `snprintf` writes is a C string that fits its buffer. -/
theorem snprintf_spec {size : Nat} (hsize : 0 < size) {fmt text : Str} {args : List Arg}
    (hfmt : NoNul fmt) (hargs : ∀ s, .str s ∈ args → NoNul s)
    (h : snprintf size fmt args = .ok text) : NoNul text ∧ text.length < size := by
  unfold snprintf format at h
  split at h
  · rename_i whole hwhole
    obtain rfl := Except.ok.inj h
    obtain ⟨ps, hps, hrender⟩ := Option.bind_eq_some_iff.mp hwhole
    refine ⟨fun hmem => ?_, by rw [List.length_take]; omega⟩
    exact noNul_render (noNul_pieces hfmt hps) hargs hrender (List.mem_of_mem_take hmem)
  · cases h

end BankSel4
