import BankSel4.Gateway.Equiv.Parse

/-!
# The scan of `local_buf`

The copy of a request of 511 bytes or more has no terminator of its own: byte 511 of `local_buf` is
what was there before.  `strtok` then finds the words that a space ends, and runs off the buffer
where the parser asks for more (`parse_closedPart`).

So the parser is at the mercy of what was in `local_buf` unless the request is `Scannable`, and then
it goes by the words of the request (`parse_of_scannable`): `prevIndependent_iff`.
-/

namespace BankSel4.Gateway

/-! ### The words that the parser asks for -/

/-- The number of words that the parser asks for behind the command. -/
def needed (cmd : Str) : Nat :=
  if cmd = bytes "login" then 2
  else if cmd = bytes "register" then 2
  else if cmd = bytes "tx" then 5
  else 0

/-- The words are as many as the parser asks for. -/
def Enough : List Str → Prop
  | [] => False
  | cmd :: args => needed cmd ≤ args.length

instance (ws : List Str) : Decidable (Enough ws) :=
  match ws with
  | [] => inferInstanceAs (Decidable False)
  | _ :: _ => inferInstanceAs (Decidable (_ ≤ _))

theorem enough_cons {cmd : Str} {args : List Str} :
    Enough (cmd :: args) ↔ needed cmd ≤ args.length := Iff.rfl

theorem Enough.append {ws : List Str} (h : Enough ws) (vs : List Str) : Enough (ws ++ vs) := by
  cases ws with
  | nil => exact h.elim
  | cons cmd args =>
    have hle : args.length ≤ (args ++ vs).length := by
      rw [List.length_append]
      omega
    exact Nat.le_trans h hle

section Words

variable {overflow : Int → Int32} {s : Str}

theorem credentialsOf_append {op : Str → Str → Auth.Op} {usage : Str} {ws : List Str}
    (h : 2 ≤ ws.length) (vs : List Str) :
    credentialsOf op usage (ws ++ vs) = credentialsOf op usage ws := by
  rcases ws with _ | ⟨user, _ | ⟨pin, ws⟩⟩
  · simp at h
  · simp at h
  · rfl

theorem txOf_append {ws : List Str} (h : 5 ≤ ws.length) (vs : List Str) :
    txOf overflow (ws ++ vs) = txOf overflow ws := by
  rcases ws with _ | ⟨token, _ | ⟨src, _ | ⟨dest, _ | ⟨type, _ | ⟨amt, ws⟩⟩⟩⟩⟩
  · simp at h
  · simp at h
  · simp at h
  · simp at h
  · simp at h
  · rfl

/-- Words behind those that the parser asks for do not matter. -/
theorem parsedOf_append {ws : List Str} (h : Enough ws) (vs : List Str) :
    parsedOf overflow (ws ++ vs) = parsedOf overflow ws := by
  cases ws with
  | nil => exact h.elim
  | cons cmd args =>
    rw [Enough, needed] at h
    rw [List.cons_append, parsedOf, parsedOf]
    split_ifs at h ⊢
    · exact credentialsOf_append h vs
    · exact credentialsOf_append h vs
    · exact txOf_append h vs
    · rfl

/-! ### Blocks without a terminator -/

theorem parseCredentials_closedPart (op : Str → Str → Auth.Op) (usage : Str) (h : NoNul s) :
    parseCredentials op usage s =
      if 2 ≤ (words (closedPart s)).length then credentialsOf op usage (words (closedPart s))
      else .error .outOfBounds := by
  rw [parseCredentials, strtok_closedPart h]
  cases hws : words (closedPart s) with
  | nil => rfl
  | cons user ws =>
    dsimp only [bind, Except.bind]
    rw [strtok_closedPart (noNul_afterWord h), words_closedPart_afterWord, hws, List.tail_cons]
    cases ws with
    | nil => rfl
    | cons pin ws => rw [if_pos (by simp)]; rfl

theorem parseTx_closedPart (h : NoNul s) : parseTx overflow s =
    if 5 ≤ (words (closedPart s)).length then txOf overflow (words (closedPart s))
    else .error .outOfBounds := by
  have h₁ := noNul_afterWord h
  have h₂ := noNul_afterWord h₁
  have h₃ := noNul_afterWord h₂
  have h₄ := noNul_afterWord h₃
  rw [parseTx, strtok_closedPart h]
  rcases hws : words (closedPart s) with
    _ | ⟨token, _ | ⟨src, _ | ⟨dest, _ | ⟨type, _ | ⟨amt, ws⟩⟩⟩⟩⟩
  all_goals
    simp [bind, Except.bind, strtok_closedPart h₁, strtok_closedPart h₂, strtok_closedPart h₃,
      strtok_closedPart h₄, words_closedPart_afterWord, hws, txOf]

/-- **The parser on a block without a terminator** goes by the words that a space ends, and runs off
the block when it asks for more. -/
theorem parse_closedPart (h : NoNul s) : parse overflow s =
    if Enough (words (closedPart s)) then parsedOf overflow (words (closedPart s))
    else .error .outOfBounds := by
  have h₁ := noNul_afterWord h
  rw [parse, strtok_closedPart h]
  cases hws : words (closedPart s) with
  | nil => rfl
  | cons cmd args =>
    dsimp only [bind, Except.bind]
    rw [parseLogin, parseRegister, parseCredentials_closedPart _ _ h₁,
      parseCredentials_closedPart _ _ h₁, parseTx_closedPart h₁, words_closedPart_afterWord, hws,
      List.tail_cons, parsedOf]
    simp only [enough_cons, needed]
    split_ifs with _ _ _ _ _ _ hzero
    · rfl
    · rfl
    · rfl
    · rfl
    · rfl
    · rfl
    · rfl
    · exact absurd (Nat.zero_le _) hzero

end Words

/-! ### Requests -/

/-- The parser's scan of the request ends inside `local_buf`, whatever was there before: the request
is short enough for a terminator, or a space ends each word that the parser asks for. -/
def Scannable (request : Str) : Prop :=
  request.length ≤ 510 ∨ Enough (words (closedPart (request.take 511)))

instance (request : Str) : Decidable (Scannable request) := inferInstanceAs (Decidable (_ ∨ _))

section Requests

variable {overflow : Int → Int32} {s : Str}

/-- The copy of a long request. -/
theorem localBuf_of_gt (h : NoNul s) (hlen : 510 < s.length) (prev : Mem 512) :
    localBuf prev s = s.take 511 ++ [prev.byte 511] := by
  rw [localBuf_eq, strncpy, takeWhile_of_noNul h, List.length_take_of_le (by omega), Nat.sub_self,
    List.replicate_zero, List.append_nil]

theorem noNul_take (h : NoNul s) (n : Nat) : NoNul (s.take n) := fun hmem =>
  h (List.mem_of_mem_take hmem)

/-- **A scannable request** is parsed by its words. -/
theorem parse_of_scannable (h : NoNul s) (hs : Scannable s) (prev : Mem 512) :
    parse overflow (localBuf prev s) = parsedOf overflow (words s) := by
  by_cases hlen : s.length ≤ 510
  · exact parse_localBuf h hlen prev
  · have henough := hs.resolve_left hlen
    have htake := noNul_take h 511
    rw [localBuf_of_gt h (Nat.not_le.mp hlen)]
    -- the words of the request, and those of the copy, start with the words that a space ends
    obtain ⟨vs, hvs⟩ := exists_words_append (s.take 511) (s.drop 511)
    rw [List.take_append_drop] at hvs
    rw [hvs, parsedOf_append henough]
    -- the last byte of the buffer ends the copy, or comes behind its words
    by_cases hnul : prev.byte 511 = 0
    · obtain ⟨us, hus⟩ := exists_words_append (s.take 511) []
      rw [List.append_nil] at hus
      rw [hnul, parse_spec htake, hus, parsedOf_append henough]
    · have hnoNul : NoNul (s.take 511 ++ [prev.byte 511]) :=
        noNul_append.mpr ⟨htake, noNul_cons.mpr ⟨hnul, List.not_mem_nil⟩⟩
      obtain ⟨us, hus⟩ := exists_words_closedPart_append (s.take 511) [prev.byte 511]
      rw [parse_closedPart hnoNul, hus, if_pos (henough.append us), parsedOf_append henough]

/-- Otherwise it runs off the buffer, when a letter was left in the last byte. -/
theorem parse_of_not_scannable (h : NoNul s) (hs : ¬ Scannable s) {prev : Mem 512}
    (hprev : prev.byte 511 = 97) : parse overflow (localBuf prev s) = .error .outOfBounds := by
  obtain ⟨hlen, henough⟩ := not_or.mp hs
  have hnoNul : NoNul (s.take 511 ++ [97]) :=
    noNul_append.mpr ⟨noNul_take h 511, noNul_cons.mpr ⟨by decide, List.not_mem_nil⟩⟩
  rw [localBuf_of_gt h (Nat.not_le.mp hlen), hprev, parse_closedPart hnoNul,
    closedPart_concat_of_ne (by decide), if_neg henough]

end Requests

/-! ### What was in `local_buf` -/

/-- A `local_buf` full of letters. -/
def letters : Mem 512 := fun _ => 97

/-- The string in a dataport. -/
def text (content : Str) : Str := content.takeWhile (· != 0)

/-- The scan of `local_buf` stays inside it, and the call and the reply are the same, whatever was
in it before. -/
structure PrevIndependent (overflow : Int → Int32) (rpc : Call → Int32) (content : Str) : Prop where
  inside : ∀ prev, ∃ p, parse overflow (localBuf prev content) = .ok p
  same : ∀ prev prev',
    runOnce overflow rpc prev content = runOnce overflow rpc prev' content

theorem noNul_text (content : Str) : NoNul (text content) := fun hmem => by
  simpa using List.mem_takeWhile_imp hmem

theorem localBuf_text (prev : Mem 512) (content : Str) :
    localBuf prev (text content) = localBuf prev content := by
  rw [localBuf, localBuf, strncpy, strncpy, takeWhile_of_noNul (noNul_text content)]
  rfl

/-- **Parsing depends only on the request** when the request is scannable, and only then. -/
theorem prevIndependent_iff (overflow : Int → Int32) (rpc : Call → Int32) (content : Str) :
    PrevIndependent overflow rpc content ↔ Scannable (text content) := by
  constructor
  · intro h
    by_contra hs
    obtain ⟨p, hp⟩ := h.inside letters
    rw [← localBuf_text, parse_of_not_scannable (noNul_text content) hs rfl] at hp
    cases hp
  · intro hs
    -- the words decide, and they are those of the request
    have hparse : ∀ prev, parse overflow (localBuf prev content) =
        parsedOf overflow (words (text content)) := fun prev => by
      rw [← localBuf_text, parse_of_scannable (noNul_text content) hs]
    refine ⟨fun prev => ?_, fun prev prev' => ?_⟩
    · rw [hparse]
      exact (leads_parsedOf overflow (words (text content))).exists_ok
    · rw [runOnce, runOnce, hparse, hparse]

/-- A request of 511 bytes, as the client can write it. -/
def longRequest : Str :=
  bytes "tx 1001 Alice Bob TRANSFER " ++ List.replicate 481 48 ++ bytes "100"

theorem not_prevIndependent_longRequest :
    ¬ PrevIndependent (fun _ => 0) (fun _ => 0) longRequest := by
  intro h
  obtain ⟨p, hp⟩ := h.inside letters
  rw [parse_of_not_scannable (by decide +kernel) (by decide +kernel) rfl] at hp
  cases hp

end BankSel4.Gateway
