import BankSel4.Bytes.Format
import Mathlib.Data.List.DropRight
import Mathlib.Data.List.TakeWhile

/-!
# Functions of the C library on strings

`strncpy`, `strtok` with the separator `" "`, and `atoi`.  A buffer that a function scans is a block
of bytes, and the scan faults when it runs off the end of the block.

`words` are the maximal runs of bytes other than spaces.  On a terminated string `strtok` finds the
first of them and goes on behind it: `strtok_spec`.  In a block without a terminator it finds only
the words that a space ends, those of the `closedPart`, and then runs off the block:
`strtok_closedPart`.

`atoi` reads a `decimal` back (`atoi_decimal`), and every complete numeral in the range of `int`
(`atoi_numeral`).
-/

namespace BankSel4

/-! ### Copies -/

/-- The `n` bytes that `strncpy(dst, src, n)` stores: the string in the block `src`, cut off or
padded with NULs. -/
def strncpy (n : Nat) (src : Str) : Str :=
  let s := (src.takeWhile (· != 0)).take n
  s ++ List.replicate (n - s.length) 0

@[simp] theorem length_strncpy (n : Nat) (src : Str) : (strncpy n src).length = n := by
  have := List.length_take_le n (src.takeWhile (· != 0))
  rw [strncpy, List.length_append, List.length_replicate]
  omega

theorem takeWhile_of_noNul {s : Str} (h : NoNul s) : s.takeWhile (· != 0) = s :=
  List.takeWhile_eq_self_iff.mpr fun c hc => by
    have hne : c ≠ 0 := fun h0 => h (h0 ▸ hc)
    simpa using hne

/-- A shorter string is copied with a terminator. -/
theorem strncpy_of_lt {n : Nat} {s : Str} (h : NoNul s) (hn : s.length < n) :
    strncpy n s = s ++ 0 :: List.replicate (n - s.length - 1) 0 := by
  rw [strncpy, takeWhile_of_noNul h, List.take_of_length_le (Nat.le_of_lt hn),
    ← List.replicate_succ, Nat.sub_add_cancel (Nat.sub_pos_of_lt hn)]

/-- The copy starts as the string does. -/
theorem strncpy_append {n : Nat} {s : Str} (h : NoNul s) (hn : s.length ≤ n) (t : Str) :
    strncpy n (s ++ t) = s ++ strncpy (n - s.length) t := by
  have hs : ∀ c ∈ s, (c != 0) = true := by
    intro c hc
    have hne : c ≠ 0 := fun h0 => h (h0 ▸ hc)
    simpa using hne
  rw [strncpy, strncpy, List.takeWhile_append_of_pos hs, List.take_append,
    List.take_of_length_le hn, List.append_assoc, List.length_append, Nat.sub_add_eq]

/-! ### Words -/

/-- `' '` -/
def space : UInt8 := 32

/-- The maximal runs of bytes other than spaces. -/
def words (s : Str) : List Str := (s.splitOnP (· == space)).filter (!·.isEmpty)

/-- What is behind the first word and the space after it. -/
def afterWord (s : Str) : Str := ((s.dropWhile (· == space)).dropWhile (· != space)).drop 1

/-- `strtok(p, " ")`, or `strtok(NULL, " ")` where `p` is what is left of the buffer: the word, if
there is one, and what is left behind it. -/
def strtok (p : Str) : Except Fault (Option Str × Str) :=
  match p.dropWhile (· == space) with
  | [] => .error .outOfBounds
  | c :: cs =>
    -- no word before the terminator
    if c = 0 then .ok (none, c :: cs)
    else
      match (c :: cs).dropWhile fun c => c != space && c != 0 with
      | [] => .error .outOfBounds
      -- a space is replaced by a NUL, and the scan goes on behind it; the terminator stays
      | d :: ds => .ok (some ((c :: cs).takeWhile fun c => c != space && c != 0),
          if d = 0 then d :: ds else ds)

@[simp] theorem words_nil : words [] = [] := rfl

/-- The bytes of a word are bytes of the text. -/
theorem mem_of_mem_words {s w : Str} (hw : w ∈ words s) {c : UInt8} (hc : c ∈ w) : c ∈ s := by
  have hsplit : ∀ w ∈ s.splitOnP (· == space), ∀ c ∈ w, c ∈ s := by
    clear hw hc
    induction s with
    | nil => simp
    | cons b s ih =>
      intro w hw c hc
      rw [List.splitOnP_cons_eq_if_modifyHead] at hw
      split_ifs at hw
      · rcases List.mem_cons.mp hw with rfl | hw
        · cases hc
        · exact List.mem_cons_of_mem b (ih w hw c hc)
      · -- the byte goes in front of the first piece
        cases hs : s.splitOnP (· == space) with
        | nil => exact absurd hs (List.splitOnP_ne_nil _ s)
        | cons v vs =>
          rw [hs] at ih
          rw [hs, List.modifyHead_cons, List.mem_cons] at hw
          rcases hw with rfl | hw
          · rcases List.mem_cons.mp hc with rfl | hc
            · exact List.mem_cons_self
            · exact List.mem_cons_of_mem b (ih v List.mem_cons_self c hc)
          · exact List.mem_cons_of_mem b (ih w (List.mem_cons_of_mem v hw) c hc)
  exact hsplit w (List.mem_of_mem_filter hw) c hc

/-- A space ends the words before it. -/
theorem words_append_space (s t : Str) : words (s ++ space :: t) = words s ++ words t := by
  rw [words, List.splitOnP_append_cons s t (by simp), List.filter_append]
  rfl

theorem words_space (s : Str) : words (space :: s) = words s := words_append_space [] s

theorem words_dropSpaces (s : Str) : words (s.dropWhile (· == space)) = words s := by
  induction s with
  | nil => rfl
  | cons c s ih =>
    by_cases hc : c = space
    · rw [List.dropWhile_cons_of_pos (by simpa using hc), ih, hc, words_space]
    · rw [List.dropWhile_cons_of_neg (by simpa using hc)]

/-- A string without spaces is a word. -/
theorem words_of_noSpace {w : Str} (hw : w ≠ []) (h : space ∉ w) : words w = [w] := by
  have hsplit : w.splitOnP (· == space) = [w] := by
    refine List.splitOnP_eq_singleton fun c hc => beq_eq_false_iff_ne.mpr ?_
    rintro rfl
    exact h hc
  rw [words, hsplit]
  simpa using hw

/-- The bytes before the first space of such a string are one word. -/
theorem words_takeWhile {c : UInt8} (hc : c ≠ space) (s : Str) :
    words ((c :: s).takeWhile (· != space)) = [(c :: s).takeWhile (· != space)] := by
  refine words_of_noSpace ?_ fun hmem => by simpa using List.mem_takeWhile_imp hmem
  rw [List.takeWhile_cons_of_pos (by simpa using hc)]
  exact List.cons_ne_nil _ _

/-- What is behind the bytes before the first space starts with that space. -/
theorem eq_space_of_dropWhile {s t : Str} {d : UInt8} (h : s.dropWhile (· != space) = d :: t) :
    d = space := by
  have := List.head_dropWhile_not (· != space) (l := s) (by simp [h])
  simpa [h] using this

/-- A string that starts with a word. -/
theorem words_of_head {c : UInt8} (hc : c ≠ space) (s : Str) : words (c :: s) =
    (c :: s).takeWhile (· != space) :: words (((c :: s).dropWhile (· != space)).drop 1) := by
  have hword := words_takeWhile hc s
  conv_lhs => rw [← List.takeWhile_append_dropWhile (p := (· != space)) (l := c :: s)]
  cases hrest : (c :: s).dropWhile (· != space) with
  | nil => rw [List.append_nil, hword, List.drop_nil, words_nil]
  | cons d t =>
    rw [eq_space_of_dropWhile hrest, words_append_space, hword, List.drop_one, List.tail_cons,
      List.singleton_append]

/-- The scan for the end of a word stops at the terminator of the string, or before. -/
theorem span_terminated {s : Str} (h : NoNul s) (r : Str) :
    ((s ++ 0 :: r).takeWhile fun c => c != space && c != 0) = s.takeWhile (· != space) ∧
      ((s ++ 0 :: r).dropWhile fun c => c != space && c != 0) =
        s.dropWhile (· != space) ++ 0 :: r := by
  induction s with
  | nil => simp
  | cons c s ih =>
    obtain ⟨hc, hs⟩ := noNul_cons.mp h
    obtain ⟨htake, hdrop⟩ := ih hs
    by_cases hspace : c = space
    · simp [hspace]
    · simp [hspace, hc, htake, hdrop]

theorem dropSpaces_terminated (s r : Str) :
    (s ++ 0 :: r).dropWhile (· == space) = s.dropWhile (· == space) ++ 0 :: r := by
  induction s with
  | nil => rfl
  | cons c s ih =>
    by_cases hspace : c = space
    · simp [hspace, ih]
    · simp [hspace]

theorem noNul_afterWord {s : Str} (h : NoNul s) : NoNul (afterWord s) := fun hmem =>
  h ((List.dropWhile_sublist _).subset
    ((List.dropWhile_sublist _).subset (List.drop_subset 1 _ hmem)))

theorem ne_space_of_dropSpaces {s t : Str} {c : UInt8} (h : s.dropWhile (· == space) = c :: t) :
    c ≠ space := by
  have := List.head_dropWhile_not (· == space) (l := s) (by simp [h])
  simpa [h] using this

theorem words_afterWord (s : Str) : words (afterWord s) = (words s).tail := by
  rw [← words_dropSpaces s, afterWord]
  cases hs : s.dropWhile (· == space) with
  | nil => rfl
  | cons c t => rw [words_of_head (ne_space_of_dropSpaces hs), List.tail_cons]

/-- **`strtok`** on a terminated string finds its first word, and leaves what is behind it. -/
theorem strtok_spec {s : Str} (h : NoNul s) (r : Str) :
    strtok (s ++ 0 :: r) = .ok ((words s).head?, afterWord s ++ 0 :: r) := by
  rw [strtok, dropSpaces_terminated, ← words_dropSpaces s, afterWord]
  cases hs : s.dropWhile (· == space) with
  | nil => rfl
  | cons c t =>
    have hct : NoNul (c :: t) := fun hmem => h ((List.dropWhile_sublist _).subset (hs ▸ hmem))
    obtain ⟨htake, hdrop⟩ := span_terminated hct r
    rw [List.cons_append] at htake hdrop
    simp only [List.cons_append, htake, hdrop, if_neg (noNul_cons.mp hct).1,
      words_of_head (ne_space_of_dropSpaces hs), List.head?_cons]
    -- at the terminator `strtok` stays, and a space it replaces and skips
    cases hrest : (c :: t).dropWhile (· != space) with
    | nil => rfl
    | cons d ds =>
      have hd : d ≠ 0 := by
        rintro rfl
        exact hct ((List.dropWhile_sublist _).subset (by rw [hrest]; exact List.mem_cons_self ..))
      simp only [List.cons_append, if_neg hd, List.drop_one, List.tail_cons]

/-- A word that `strtok` finds has no NUL. -/
theorem noNul_of_strtok {p w r : Str} (h : strtok p = .ok (some w, r)) : NoNul w := by
  unfold strtok at h
  split at h
  · cases h
  · split_ifs at h
    · cases h
    · split at h
      · cases h
      · obtain ⟨hw, -⟩ := Prod.mk.inj (Except.ok.inj h)
        rw [← Option.some.inj hw]
        intro hmem
        have := List.mem_takeWhile_imp hmem
        simp at this

/-- `strtok` at a word that a space ends. -/
theorem strtok_word {w : Str} (hw : w ≠ []) (hspace : space ∉ w) (h : NoNul w) (r : Str) :
    strtok (w ++ space :: r) = .ok (some w, r) := by
  obtain ⟨c, w, rfl⟩ := List.exists_cons_of_ne_nil hw
  have hc : c ≠ space := fun h0 => hspace (h0 ▸ List.mem_cons_self ..)
  have hscan : ∀ d ∈ c :: w, (d != space && d != 0) = true := by
    intro d hd
    have h₁ : d ≠ space := fun h0 => hspace (h0 ▸ hd)
    have h₂ : d ≠ 0 := fun h0 => h (h0 ▸ hd)
    simp [h₁, h₂]
  have htake : ((c :: w) ++ space :: r).takeWhile (fun c => c != space && c != 0) = c :: w := by
    rw [List.takeWhile_append_of_pos hscan]
    simp
  have hdrop : ((c :: w) ++ space :: r).dropWhile (fun c => c != space && c != 0) = space :: r := by
    rw [List.dropWhile_append_of_pos hscan]
    simp
  rw [List.cons_append] at htake hdrop
  rw [strtok, List.cons_append, List.dropWhile_cons_of_neg (by simpa using hc)]
  simp only [htake, hdrop, if_neg (noNul_cons.mp h).1]
  rfl

/-! ### Blocks without a terminator -/

/-- The bytes up to the last space. -/
def closedPart (s : Str) : Str := s.rdropWhile (· != space)

theorem closedPart_concat_of_ne {c : UInt8} (hc : c ≠ space) (s : Str) :
    closedPart (s ++ [c]) = closedPart s := List.rdropWhile_concat_pos _ _ _ (by simpa using hc)

theorem closedPart_concat_space (s : Str) : closedPart (s ++ [space]) = s ++ [space] :=
  List.rdropWhile_concat_neg _ _ _ (by simp)

theorem closedPart_of_noSpace {s : Str} (h : space ∉ s) : closedPart s = [] := by
  refine List.rdropWhile_eq_nil_iff.mpr fun c hc => ?_
  have hne : c ≠ space := fun h0 => h (h0 ▸ hc)
  simpa using hne

theorem closedPart_append_space (s t : Str) :
    closedPart (s ++ space :: t) = s ++ space :: closedPart t := by
  -- from the end, where the last space is looked for
  induction t using List.reverseRecOn with
  | nil => exact closedPart_concat_space s
  | append_singleton t c ih =>
    rw [← List.cons_append, ← List.append_assoc]
    by_cases hc : c = space
    · rw [hc, closedPart_concat_space, closedPart_concat_space, List.append_assoc, List.cons_append]
    · rw [closedPart_concat_of_ne hc, closedPart_concat_of_ne hc, ih]

theorem words_closedPart_dropSpaces (s : Str) :
    words (closedPart (s.dropWhile (· == space))) = words (closedPart s) := by
  induction s with
  | nil => rfl
  | cons c s ih =>
    by_cases hc : c = space
    · have hcons := closedPart_append_space [] s
      rw [List.nil_append, List.nil_append] at hcons
      rw [List.dropWhile_cons_of_pos (by simpa using hc), ih, hc, hcons, words_space]
    · rw [List.dropWhile_cons_of_neg (by simpa using hc)]

/-- The last space of a string, if it has one. -/
theorem exists_last_space (s : Str) :
    (space ∉ s ∧ closedPart s = []) ∨ ∃ u t, s = u ++ space :: t ∧ closedPart s = u ++ [space] := by
  induction s using List.reverseRecOn with
  | nil => exact Or.inl ⟨List.not_mem_nil, rfl⟩
  | append_singleton s c ih =>
    by_cases hc : c = space
    · exact Or.inr ⟨s, [], by rw [hc], by rw [hc, closedPart_concat_space]⟩
    · rw [closedPart_concat_of_ne hc]
      rcases ih with ⟨hmem, hclosed⟩ | ⟨u, t, rfl, hclosed⟩
      · refine Or.inl ⟨?_, hclosed⟩
        rw [List.mem_append, List.mem_singleton, not_or]
        exact ⟨hmem, Ne.symm hc⟩
      · exact Or.inr ⟨u, t ++ [c], by rw [List.append_assoc, List.cons_append], hclosed⟩

/-- The words that a space ends come first, whatever follows. -/
theorem exists_words_append (s t : Str) : ∃ ws, words (s ++ t) = words (closedPart s) ++ ws := by
  -- behind the last space stands the one word that may go on
  rcases exists_last_space s with ⟨-, hclosed⟩ | ⟨u, v, rfl, hclosed⟩
  · exact ⟨words (s ++ t), by rw [hclosed, words_nil, List.nil_append]⟩
  · refine ⟨words (v ++ t), ?_⟩
    rw [hclosed, List.append_assoc, List.cons_append, words_append_space, words_append_space,
      words_nil, List.append_nil]

/-- The scan for the end of a word stops at a space, in a block without a terminator. -/
theorem span_noNul {s : Str} (h : NoNul s) :
    (s.takeWhile fun c => c != space && c != 0) = s.takeWhile (· != space) ∧
      (s.dropWhile fun c => c != space && c != 0) = s.dropWhile (· != space) := by
  induction s with
  | nil => exact ⟨rfl, rfl⟩
  | cons c s ih =>
    obtain ⟨hc, hs⟩ := noNul_cons.mp h
    obtain ⟨htake, hdrop⟩ := ih hs
    by_cases hspace : c = space
    · simp [hspace]
    · simp [hspace, hc, htake, hdrop]

/-- They stay words that a space ends. -/
theorem exists_words_closedPart_append (s t : Str) :
    ∃ ws, words (closedPart (s ++ t)) = words (closedPart s) ++ ws := by
  rcases exists_last_space s with ⟨-, hclosed⟩ | ⟨u, v, rfl, hclosed⟩
  · exact ⟨words (closedPart (s ++ t)), by rw [hclosed, words_nil, List.nil_append]⟩
  · refine ⟨words (closedPart (v ++ t)), ?_⟩
    rw [hclosed, List.append_assoc, List.cons_append, closedPart_append_space, words_append_space,
      words_append_space, words_nil, List.append_nil]

/-- The first word of a string that starts with one, if a space ends it. -/
theorem words_closedPart_of_head {c : UInt8} (hc : c ≠ space) (s : Str) :
    words (closedPart (c :: s)) =
    match (c :: s).dropWhile (· != space) with
    | [] => []
    | _ :: t => (c :: s).takeWhile (· != space) :: words (closedPart t) := by
  cases hrest : (c :: s).dropWhile (· != space) with
  | nil =>
    have hspace : space ∉ c :: s := fun hmem => by
      simpa using List.dropWhile_eq_nil_iff.mp hrest space hmem
    rw [closedPart_of_noSpace hspace, words_nil]
  | cons d t =>
    obtain rfl := eq_space_of_dropWhile hrest
    have hsplit := List.takeWhile_append_dropWhile (p := (· != space)) (l := c :: s)
    rw [hrest] at hsplit
    conv_lhs => rw [← hsplit, closedPart_append_space, words_append_space, words_takeWhile hc]
    rfl

/-- **`strtok`** on a block without a terminator finds its first word, if a space ends it. -/
theorem strtok_closedPart {s : Str} (h : NoNul s) :
    strtok s = match words (closedPart s) with
      | [] => .error .outOfBounds
      | w :: _ => .ok (some w, afterWord s) := by
  rw [← words_closedPart_dropSpaces, strtok, afterWord]
  cases hs : s.dropWhile (· == space) with
  | nil => rfl
  | cons c t =>
    have hc := ne_space_of_dropSpaces hs
    have hct : NoNul (c :: t) := fun hmem => h ((List.dropWhile_sublist _).subset (hs ▸ hmem))
    obtain ⟨htake, hdrop⟩ := span_noNul hct
    simp only [htake, hdrop, if_neg (noNul_cons.mp hct).1, words_closedPart_of_head hc]
    cases hrest : (c :: t).dropWhile (· != space) with
    | nil => rfl
    | cons d ds =>
      obtain rfl := eq_space_of_dropWhile hrest
      rfl

theorem words_closedPart_afterWord (s : Str) :
    words (closedPart (afterWord s)) = (words (closedPart s)).tail := by
  rw [← words_closedPart_dropSpaces s, afterWord]
  cases hs : s.dropWhile (· == space) with
  | nil => rfl
  | cons c t =>
    rw [words_closedPart_of_head (ne_space_of_dropSpaces hs)]
    cases (c :: t).dropWhile (· != space) with
    | nil => rfl
    | cons d ds => rw [List.drop_one, List.tail_cons, List.tail_cons]

/-! ### Numbers -/

/-- `isspace(c)`, in the `C` locale. -/
def isSpace (c : UInt8) : Bool := c == space || (9 ≤ c && c ≤ 13)

/-- The value of the digits at the start of the string. -/
def leadingNumber (s : Str) : Nat := ofDigits 0 (s.takeWhile isDigit)

/-- The number that `atoi` reads: white space, a sign, and digits; 0 where there are none. -/
def numberOf (s : Str) : Int :=
  match s.dropWhile isSpace with
  | [] => 0
  | c :: cs =>
    if c = 45 then -(leadingNumber cs : Int)
    else if c = 43 then leadingNumber cs
    else leadingNumber (c :: cs)

/-- `atoi(s)`.  The standard leaves open what it returns for numbers that are no `int`s: `overflow`
is what the library makes of them. -/
def atoi (overflow : Int → Int32) (s : Str) : Int32 :=
  if -2 ^ 31 ≤ numberOf s ∧ numberOf s < 2 ^ 31 then Int32.ofInt (numberOf s)
  else overflow (numberOf s)

/-- The value of a string of digits. -/
def unsigned? (s : Str) : Option Nat :=
  if s ≠ [] ∧ s.all isDigit then some (ofDigits 0 s) else none

/-- The value of a complete decimal numeral: digits, with a sign before them or not. -/
def numeral? : Str → Option Int
  | [] => none
  | c :: cs =>
    if c = 45 then (unsigned? cs).map fun n : Nat => -(n : Int)
    else if c = 43 then (unsigned? cs).map fun n : Nat => (n : Int)
    else (unsigned? (c :: cs)).map fun n : Nat => (n : Int)

theorem unsigned?_eq_some {s : Str} {n : Nat} :
    unsigned? s = some n ↔ (s ≠ [] ∧ ∀ c ∈ s, isDigit c = true) ∧ ofDigits 0 s = n := by
  rw [unsigned?, Option.ite_none_right_eq_some, Option.some_inj, List.all_eq_true]

theorem leadingNumber_of_unsigned {s : Str} {n : Nat} (h : unsigned? s = some n) :
    leadingNumber s = n := by
  obtain ⟨⟨-, hs⟩, hn⟩ := unsigned?_eq_some.mp h
  rw [leadingNumber, List.takeWhile_eq_self_iff.mpr hs, hn]

theorem not_isSpace_of_isDigit {c : UInt8} (h : isDigit c = true) : isSpace c = false := by
  have h13 : ¬ c ≤ 13 := not_le_of_isDigit h (by decide)
  have h32 : c ≠ space := ne_of_isDigit h (by decide)
  simp [isSpace, h13, h32]

/-- `atoi` reads a complete numeral as a whole. -/
theorem numberOf_of_numeral {w : Str} {v : Int} (h : numeral? w = some v) : numberOf w = v := by
  cases w with
  | nil => cases h
  | cons c cs =>
    -- a numeral starts with a sign or a digit, and so not with white space
    have hspace : isSpace c = false := by
      rw [numeral?] at h
      split_ifs at h with hminus hplus
      · rw [hminus]
        rfl
      · rw [hplus]
        rfl
      · obtain ⟨n, hn, -⟩ := Option.map_eq_some_iff.mp h
        exact not_isSpace_of_isDigit ((unsigned?_eq_some.mp hn).1.2 c (List.mem_cons_self ..))
    rw [numberOf, List.dropWhile_cons_of_neg (by simp [hspace])]
    rw [numeral?] at h
    dsimp only
    split_ifs at h ⊢ with hminus hplus
    · obtain ⟨n, hn, rfl⟩ := Option.map_eq_some_iff.mp h
      rw [leadingNumber_of_unsigned hn]
    · obtain ⟨n, hn, rfl⟩ := Option.map_eq_some_iff.mp h
      rw [leadingNumber_of_unsigned hn]
    · obtain ⟨n, hn, rfl⟩ := Option.map_eq_some_iff.mp h
      rw [leadingNumber_of_unsigned hn]

/-- **`atoi`** of a complete numeral for an `int` is that `int`. -/
theorem atoi_numeral {overflow : Int → Int32} {w : Str} {i : Int32}
    (h : numeral? w = some i.toInt) : atoi overflow w = i := by
  rw [atoi, numberOf_of_numeral h, if_pos ⟨i.le_toInt, i.toInt_lt⟩, Int32.ofInt_toInt]

theorem unsigned?_digits (n : Nat) : unsigned? (digits n) = some n := by
  obtain ⟨c, s, hcs⟩ := exists_digits_eq_cons n
  refine unsigned?_eq_some.mpr ⟨⟨?_, fun d hd => isDigit_of_mem_digits hd⟩, ofDigits_digits n⟩
  rw [hcs]
  exact List.cons_ne_nil _ _

/-- What `%d` writes is a complete numeral. -/
theorem numeral?_decimal (i : Int) : numeral? (decimal i) = some i := by
  unfold decimal
  split_ifs with hneg
  · rw [numeral?, if_pos rfl, unsigned?_digits, Option.map_some, Option.some_inj]
    omega
  · have hdigits := unsigned?_digits i.natAbs
    obtain ⟨c, s, hcs⟩ := exists_digits_eq_cons i.natAbs
    have hc : isDigit c = true := isDigit_of_mem_digits (hcs ▸ List.mem_cons_self ..)
    have hminus : c ≠ 45 := ne_of_isDigit hc (by decide)
    have hplus : c ≠ 43 := ne_of_isDigit hc (by decide)
    rw [hcs] at hdigits ⊢
    rw [numeral?, if_neg hminus, if_neg hplus, hdigits, Option.map_some, Option.some_inj]
    omega

/-- `atoi` reads back what `%d` writes. -/
theorem atoi_decimal (overflow : Int → Int32) (i : Int32) : atoi overflow (decimal i.toInt) = i :=
  atoi_numeral (numeral?_decimal i.toInt)

end BankSel4
