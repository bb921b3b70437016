import BankSel4.Gateway.Equiv.Scan

/-!
# Requests and the calls they lead to

A round of the gateway makes the call that the words of the request ask for, or makes none and
replies with an error: `runOnce_words`.  The text that the client's format makes of a transaction
asks for that transaction, `int`s included.

The gateway does not ask more of a transaction than its number of words, and passes on what `atoi`
makes of the token and the amount.  So only the requests with `IntNumerals` are the transactions
that they lead to: `executesWellFormed_iff`.
-/

namespace BankSel4.Gateway

/-! ### Rounds -/

theorem exists_replyTo (c : Call) (result : Int32) : ∃ reply, replyTo c result = .ok reply := by
  have hok : ∀ (fmt : Str) (s : Str), pieces fmt = some [.text s, .int] →
      ∃ reply, snprintf 512 fmt [.int result.toInt] = .ok reply := by
    intro fmt s hpieces
    rw [snprintf, format, hpieces]
    exact ⟨_, rfl⟩
  unfold replyTo
  split
  · exact hok _ (bytes "LOGIN_RESULT: ") (by decide +kernel)
  · exact hok _ (bytes "REGISTER_RESULT: ") (by decide +kernel)
  · exact hok _ (bytes "TX_RESULT: ") (by decide +kernel)

section Rounds

variable {overflow : Int → Int32} {rpc : Call → Int32} {prev : Mem 512} {request : Str}

/-- A round with a request that is parsed by its words. -/
theorem exists_runOnce (rpc : Call → Int32)
    (h : parse overflow (localBuf prev request) = parsedOf overflow (words request)) : ∃ reply,
      runOnce overflow rpc prev request = .ok (wordCalls overflow (words request), reply) ∧
      (wordCalls overflow (words request) = [] → bytes "ERROR: " <+: reply) ∧
      (wordCalls overflow (words request) = [] → (∃ cmd ∈ (words request).head?, IsCommand cmd) →
        bytes "ERROR: Usage: " <+: reply) := by
  have hleads := leads_parsedOf overflow (words request)
  rw [runOnce, h]
  cases hcalls : wordCalls overflow (words request) with
  | nil =>
    obtain ⟨r, hr⟩ := hleads.refused hcalls
    refine ⟨bytes "ERROR: " ++ r, by rw [hr]; rfl, fun _ => List.prefix_append _ _,
      fun _ hcmd => ?_⟩
    obtain ⟨r', hr'⟩ := hleads.usage hcalls hcmd
    rw [hr] at hr'
    obtain heq := Parsed.refused.inj (Except.ok.inj hr')
    rw [heq]
    exact List.prefix_append _ _
  | cons c cs =>
    obtain ⟨hone, hcall⟩ := hleads.call c (hcalls ▸ List.mem_cons_self ..)
    obtain ⟨reply, hreply⟩ := exists_replyTo c (rpc c)
    have hne : c :: cs ≠ [] := List.cons_ne_nil c cs
    refine ⟨reply, ?_, fun hnil => absurd hnil hne, fun hnil => absurd hnil hne⟩
    rw [hcall, ← hcalls, hone]
    simp only [bind, Except.bind, hreply]

end Rounds

/-! ### The client's format -/

/-- A field of a transaction: not empty, and without spaces. -/
structure IsField (w : Str) : Prop where
  ne_nil : w ≠ []
  noSpace : space ∉ w
  noNul : NoNul w

/-- `tx <token> <src> <dest> <type> <amount>`, the format of the requests of the client. -/
def txText (t : Int32) (src dest type : Str) (a : Int32) : Str :=
  bytes "tx" ++ space :: (decimal t.toInt ++ space :: (src ++ space :: (dest ++ space ::
    (type ++ space :: decimal a.toInt))))

theorem isField_decimal (i : Int) : IsField (decimal i) where
  ne_nil := decimal_ne_nil i
  noSpace hmem := by rcases mem_decimal hmem with h | h <;> exact absurd h (by decide)
  noNul hmem := by rcases mem_decimal hmem with h | h <;> exact absurd h (by decide)

section Text

variable {src dest type : Str}

theorem words_txText (t a : Int32) (hsrc : IsField src) (hdest : IsField dest)
    (htype : IsField type) : words (txText t src dest type a) =
      [bytes "tx", decimal t.toInt, src, dest, type, decimal a.toInt] := by
  have hword : ∀ {w : Str}, IsField w → words w = [w] := fun h =>
    words_of_noSpace h.ne_nil h.noSpace
  rw [txText, words_append_space, words_append_space, words_append_space, words_append_space,
    words_append_space, hword hsrc, hword hdest, hword htype, hword (isField_decimal _),
    hword (isField_decimal _)]
  rfl

theorem noNul_txText (t a : Int32) (hsrc : IsField src) (hdest : IsField dest)
    (htype : IsField type) : NoNul (txText t src dest type a) := by
  have hspace : (space : UInt8) ≠ 0 := by decide
  simp only [txText, noNul_append, noNul_cons]
  exact ⟨by decide, hspace, (isField_decimal _).noNul, hspace, hsrc.noNul, hspace, hdest.noNul,
    hspace, htype.noNul, hspace, (isField_decimal _).noNul⟩

end Text

/-- **The gateway parses words**, and reads the transactions of the client's format back. -/
theorem runOnce_words (overflow : Int → Int32) (rpc : Call → Int32) (prev : Mem 512) :
    (∀ request, NoNul request → request.length ≤ 510 → ∃ reply,
      runOnce overflow rpc prev request = .ok (wordCalls overflow (words request), reply) ∧
      (wordCalls overflow (words request) = [] → bytes "ERROR: " <+: reply) ∧
      (wordCalls overflow (words request) = [] → (∃ cmd ∈ (words request).head?, IsCommand cmd) →
        bytes "ERROR: Usage: " <+: reply)) ∧
    (∀ t a src dest type, IsField src → IsField dest → IsField type →
      (txText t src dest type a).length ≤ 510 → ∃ reply,
      runOnce overflow rpc prev (txText t src dest type a) =
        .ok ([.bank ⟨t, src, dest, type, a⟩], reply)) := by
  have hround : ∀ request, NoNul request → request.length ≤ 510 →
      parse overflow (localBuf prev request) = parsedOf overflow (words request) :=
    fun request h hlen => parse_localBuf h hlen prev
  constructor
  · exact fun request h hlen => exists_runOnce rpc (hround request h hlen)
  · intro t a src dest type hsrc hdest htype hlen
    obtain ⟨reply, hreply, -⟩ := exists_runOnce rpc
      (hround _ (noNul_txText t a hsrc hdest htype) hlen)
    refine ⟨reply, ?_⟩
    rw [hreply, words_txText t a hsrc hdest htype]
    simp only [wordCalls, txCalls, atoi_decimal]
    rfl

/-- The request of the client's `read_input`, and one that lacks a word. -/
theorem runOnce_words_mock :
    (∃ reply, runOnce (fun _ => 0) (fun _ => 0) Mem.zero
      (txText 1001 (bytes "Alice") (bytes "Bob") (bytes "TRANSFER") 100) =
        .ok ([.bank ⟨1001, bytes "Alice", bytes "Bob", bytes "TRANSFER", 100⟩], reply)) ∧
    ∃ reply, runOnce (fun _ => 0) (fun _ => 0) Mem.zero (bytes "login Alice") = .ok ([], reply) ∧
      bytes "ERROR: Usage: " <+: reply := by
  obtain ⟨hwords, htext⟩ := runOnce_words (fun _ => 0) (fun _ => 0) Mem.zero
  constructor
  · exact htext 1001 100 _ _ _ ⟨by decide, by decide, by decide⟩ ⟨by decide, by decide, by decide⟩
      ⟨by decide, by decide, by decide⟩ (by decide +kernel)
  · obtain ⟨reply, hreply, -, husage⟩ := hwords (bytes "login Alice") (by decide) (by decide)
    exact ⟨reply, hreply, husage (by decide +kernel) ⟨bytes "login", by decide +kernel, by decide⟩⟩

/-! ### Well-formed transactions -/

/-- The request is the transaction `c`: the six words of the usage line, with complete numerals for
the token and the amount. -/
def WellFormed (request : Str) (c : Ledger.Call) : Prop :=
  ∃ token amt, words request = [bytes "tx", token, c.src, c.dest, c.txType, amt] ∧
    numeral? token = some c.token.toInt ∧ numeral? amt = some c.amount.toInt

/-- The transactions that a round executes are well formed, and a request that is none is not
executed: it gets an error reply, unless it is for the AuthServer. -/
def ExecutesWellFormed (overflow : Int → Int32) (rpc : Call → Int32) (prev : Mem 512)
    (request : Str) : Prop :=
  ∃ calls reply, runOnce overflow rpc prev request = .ok (calls, reply) ∧
    (∀ c, Call.bank c ∈ calls → WellFormed request c) ∧
    ((∀ c, ¬ WellFormed request c) → (∀ c, Call.bank c ∉ calls) ∧
      (bytes "ERROR: " <+: reply ∨ ∃ op, Call.auth op ∈ calls))

/-- The words ask for a transaction: `tx` and five words more. -/
def IsTx (ws : List Str) : Prop := ws.head? = some (bytes "tx") ∧ 6 ≤ ws.length

/-- A complete numeral of an `int`. -/
def IsInt (w : Str) : Prop := (numeral? w).any fun v => decide (-2 ^ 31 ≤ v ∧ v < 2 ^ 31)

/-- The words are six, and the token and the amount among them are numerals of `int`s. -/
def IntNumerals (ws : List Str) : Prop :=
  ws.length = 6 ∧ IsInt (ws.getD 1 []) ∧ IsInt (ws.getD 5 [])

instance (ws : List Str) : Decidable (IsTx ws) := inferInstanceAs (Decidable (_ ∧ _))

instance (w : Str) : Decidable (IsInt w) := inferInstanceAs (Decidable (_ = true))

instance (ws : List Str) : Decidable (IntNumerals ws) := inferInstanceAs (Decidable (_ ∧ _ ∧ _))

theorem isInt_iff {w : Str} : IsInt w ↔ ∃ i : Int32, numeral? w = some i.toInt := by
  unfold IsInt
  rw [Option.any_eq_true]
  constructor
  · rintro ⟨v, hv, hrange⟩
    obtain ⟨hlo, hhi⟩ := of_decide_eq_true hrange
    exact ⟨Int32.ofInt v, by rw [hv, Int32.toInt_ofInt_of_le hlo hhi]⟩
  · rintro ⟨i, hi⟩
    exact ⟨i.toInt, hi, decide_eq_true ⟨i.le_toInt, i.toInt_lt⟩⟩

theorem isTx_iff {ws : List Str} : IsTx ws ↔ ∃ token src dest type amt rest,
    ws = bytes "tx" :: token :: src :: dest :: type :: amt :: rest := by
  unfold IsTx
  rcases ws with _ | ⟨cmd, _ | ⟨token, _ | ⟨src, _ | ⟨dest, _ | ⟨type, _ | ⟨amt, ws⟩⟩⟩⟩⟩⟩
  all_goals simp

section WellFormed

variable {overflow : Int → Int32} {rpc : Call → Int32} {request : Str}

/-- The words of a transaction ask for it. -/
theorem wordCalls_tx (token src dest type amt : Str) (rest : List Str) :
    wordCalls overflow (bytes "tx" :: token :: src :: dest :: type :: amt :: rest) =
      [.bank ⟨atoi overflow token, src, dest, type, atoi overflow amt⟩] := rfl

/-- Only the words of a transaction ask for one. -/
theorem isTx_of_mem {ws : List Str} {c : Ledger.Call} (h : Call.bank c ∈ wordCalls overflow ws) :
    IsTx ws := by
  cases ws with
  | nil => simp [wordCalls] at h
  | cons cmd args =>
    rw [wordCalls] at h
    split_ifs at h with hlogin hregister htx
    · rcases args with _ | ⟨user, _ | ⟨pin, ws⟩⟩ <;> simp [credentialsCalls] at h
    · rcases args with _ | ⟨user, _ | ⟨pin, ws⟩⟩ <;> simp [credentialsCalls] at h
    · rcases args with _ | ⟨token, _ | ⟨src, _ | ⟨dest, _ | ⟨type, _ | ⟨amt, ws⟩⟩⟩⟩⟩
      all_goals simp [txCalls] at h
      exact isTx_iff.mpr ⟨token, src, dest, type, amt, ws, by rw [htx]⟩
    · simp at h

/-- A transaction with int numerals is the one it asks for. -/
theorem wellFormed_of_intNumerals {c : Ledger.Call} (hnum : IntNumerals (words request))
    (h : Call.bank c ∈ wordCalls overflow (words request)) : WellFormed request c := by
  obtain ⟨token, src, dest, type, amt, rest, hws⟩ := isTx_iff.mp (isTx_of_mem h)
  rw [hws, wordCalls_tx, List.mem_singleton] at h
  obtain ⟨hlen, htoken, hamt⟩ := hnum
  rw [hws] at hlen htoken hamt
  -- six words leave none behind the amount
  obtain rfl : rest = [] := by simpa using hlen
  obtain ⟨t, ht⟩ : ∃ t : Int32, numeral? token = some t.toInt := isInt_iff.mp htoken
  obtain ⟨a, ha⟩ : ∃ a : Int32, numeral? amt = some a.toInt := isInt_iff.mp hamt
  obtain rfl := Call.bank.inj h
  refine ⟨token, amt, hws, ?_, ?_⟩
  · rw [atoi_numeral ht]
    exact ht
  · rw [atoi_numeral ha]
    exact ha

/-- **The gateway executes only well-formed transactions** exactly when its scan of the request ends
inside `local_buf` and a transaction has no more than its six words, with int numerals for the token
and the amount. -/
theorem executesWellFormed_iff (h : NoNul request) :
    (∀ prev, ExecutesWellFormed overflow rpc prev request) ↔
      Scannable request ∧ (IsTx (words request) → IntNumerals (words request)) := by
  constructor
  · intro hall
    have hscan : Scannable request := by
      by_contra hs
      obtain ⟨calls, reply, hrun, -⟩ := hall letters
      rw [runOnce, parse_of_not_scannable h hs rfl] at hrun
      cases hrun
    refine ⟨hscan, fun htx => ?_⟩
    obtain ⟨calls, reply, hrun, hwell, -⟩ := hall letters
    obtain ⟨reply', hrun', -⟩ := exists_runOnce rpc (parse_of_scannable h hscan letters)
    obtain ⟨rfl, rfl⟩ := Prod.mk.inj (Except.ok.inj (hrun.symm.trans hrun'))
    obtain ⟨token, src, dest, type, amt, rest, hws⟩ := isTx_iff.mp htx
    -- the call passes on what `atoi` reads, so a well-formed one has numerals of `int`s
    have hmem := List.mem_singleton_self (Call.bank
      ⟨atoi overflow token, src, dest, type, atoi overflow amt⟩)
    rw [← wordCalls_tx token src dest type amt rest, ← hws] at hmem
    obtain ⟨token', amt', hws', ht, ha⟩ := hwell _ hmem
    rw [hws']
    exact ⟨rfl, isInt_iff.mpr ⟨_, ht⟩, isInt_iff.mpr ⟨_, ha⟩⟩
  · rintro ⟨hscan, hnum⟩ prev
    obtain ⟨reply, hrun, herror, -⟩ := exists_runOnce rpc (parse_of_scannable h hscan prev)
    have hwell : ∀ c, Call.bank c ∈ wordCalls overflow (words request) → WellFormed request c :=
      fun c hc => wellFormed_of_intNumerals (hnum (isTx_of_mem hc)) hc
    refine ⟨_, reply, hrun, hwell, fun hnone => ⟨fun c hc => hnone c (hwell c hc), ?_⟩⟩
    cases hcalls : wordCalls overflow (words request) with
    | nil => exact Or.inl (herror hcalls)
    | cons call calls =>
      cases call with
      | auth op => exact Or.inr ⟨op, List.mem_cons_self ..⟩
      | bank c => exact absurd (hwell c (hcalls ▸ List.mem_cons_self ..)) (hnone c)

end WellFormed

theorem executesWellFormed_iff_mock :
    (∀ prev, ExecutesWellFormed (fun _ => 0) (fun _ => 0) prev
      (bytes "tx 1001 Alice Bob TRANSFER 100")) ↔
      Scannable (bytes "tx 1001 Alice Bob TRANSFER 100") ∧
        (IsTx (words (bytes "tx 1001 Alice Bob TRANSFER 100")) →
          IntNumerals (words (bytes "tx 1001 Alice Bob TRANSFER 100"))) :=
  executesWellFormed_iff (by decide)

/-- An amount in scientific notation: the gateway executes a transfer of 1. -/
theorem not_executesWellFormed_partlyNumeric :
    ¬ ExecutesWellFormed (fun _ => 0) (fun _ => 0) Mem.zero
      (bytes "tx 1001 Alice Bob TRANSFER 1e9") := by
  have hws : words (bytes "tx 1001 Alice Bob TRANSFER 1e9") =
      ["tx", "1001", "Alice", "Bob", "TRANSFER", "1e9"].map bytes := by decide +kernel
  rintro ⟨calls, reply, hrun, hwell, -⟩
  have hnoNul : NoNul (bytes "tx 1001 Alice Bob TRANSFER 1e9") := by decide
  have hparse : parse (fun _ => 0) (localBuf Mem.zero _) = parsedOf (fun _ => 0) (words _) :=
    parse_localBuf hnoNul (by decide) Mem.zero
  obtain ⟨reply', hrun', -⟩ := exists_runOnce (fun _ => 0) hparse
  obtain ⟨rfl, rfl⟩ := Prod.mk.inj (Except.ok.inj (hrun.symm.trans hrun'))
  rw [hws] at hwell
  obtain ⟨token, amt, hwords, -, hamt⟩ := hwell _ (List.mem_singleton_self _)
  obtain rfl : bytes "1e9" = amt := congrArg (List.getD · 5 []) (hws.symm.trans hwords)
  exact absurd hamt (by decide)

end BankSel4.Gateway
