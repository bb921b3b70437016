import BankSel4.Gateway.Parse

/-!
# The gateway parses words

A request of at most 510 bytes is copied into `local_buf` with its terminator, whatever was there
before, and `strtok` finds its words one by one: `parse_localBuf`.  `askedCall` is the call that a
request asks for, by its words.

Every reply starts with a word that is no command, so that no reply asks for a call:
`parse_of_isReply`.
-/

namespace BankSel4.Gateway

/-! ### The copy of the request -/

/-- The copy covers `local_buf` but for its last byte. -/
theorem localBuf_eq (prev : Mem 512) (request : Str) :
    localBuf prev request = strncpy 511 request ++ [prev.byte 511] :=
  Mem.toList_store prev (length_strncpy 511 request)

/-- A request of at most 510 bytes ends inside `local_buf`. -/
theorem localBuf_of_le {request : Str} (h : NoNul request) (hlen : request.length ≤ 510)
    (prev : Mem 512) : ∃ r, localBuf prev request = request ++ 0 :: r := by
  rw [localBuf_eq, strncpy_of_lt h (by omega), List.append_assoc]
  exact ⟨_, rfl⟩

/-! ### Words -/

/-- Two words more. -/
def credentialsOf (op : Str → Str → Auth.Op) (usage : Str) : List Str → Except Fault Parsed
  | user :: pin :: _ => .ok (.call (.auth (op user pin)))
  | _ => refuse usage []

section Words

variable (overflow : Int → Int32)

/-- Five words more. -/
def txOf : List Str → Except Fault Parsed
  | token :: src :: dest :: type :: amt :: _ =>
    .ok (.call (.bank ⟨atoi overflow token, src, dest, type, atoi overflow amt⟩))
  | _ => refuse (bytes "ERROR: Usage: tx <token> <src> <dest> <type> <amt>") []

/-- What the words of a request lead to. -/
def parsedOf : List Str → Except Fault Parsed
  | [] => refuse (bytes "ERROR: Empty command") []
  | cmd :: args =>
    if cmd = bytes "login" then
      credentialsOf .login (bytes "ERROR: Usage: login <user> <pin>") args
    else if cmd = bytes "register" then
      credentialsOf .registerUser (bytes "ERROR: Usage: register <user> <pin>") args
    else if cmd = bytes "tx" then txOf overflow args
    else refuse (bytes "ERROR: Unknown command: %s") [.str cmd]

variable {overflow} {s : Str}

theorem parseCredentials_spec (op : Str → Str → Auth.Op) (usage : Str) (h : NoNul s) (r : Str) :
    parseCredentials op usage (s ++ 0 :: r) = credentialsOf op usage (words s) := by
  rw [parseCredentials, strtok_spec h]
  dsimp only [bind, Except.bind]
  rw [strtok_spec (noNul_afterWord h), words_afterWord]
  rcases words s with _ | ⟨user, _ | ⟨pin, ws⟩⟩ <;> rfl

theorem parseTx_spec (h : NoNul s) (r : Str) : parseTx overflow (s ++ 0 :: r) =
    txOf overflow (words s) := by
  have h₁ := noNul_afterWord h
  have h₂ := noNul_afterWord h₁
  have h₃ := noNul_afterWord h₂
  have h₄ := noNul_afterWord h₃
  rw [parseTx, strtok_spec h]
  dsimp only [bind, Except.bind]
  rw [strtok_spec h₁]
  dsimp only
  rw [strtok_spec h₂]
  dsimp only
  rw [strtok_spec h₃]
  dsimp only
  rw [strtok_spec h₄]
  simp only [words_afterWord]
  rcases words s with _ | ⟨token, _ | ⟨src, _ | ⟨dest, _ | ⟨type, _ | ⟨amt, ws⟩⟩⟩⟩⟩ <;> rfl

/-- On a terminated request the parser goes by its words. -/
theorem parse_spec (h : NoNul s) (r : Str) : parse overflow (s ++ 0 :: r) =
    parsedOf overflow (words s) := by
  have h₁ := noNul_afterWord h
  rw [parse, strtok_spec h]
  dsimp only [bind, Except.bind]
  rw [parseLogin, parseRegister, parseCredentials_spec _ _ h₁, parseCredentials_spec _ _ h₁,
    parseTx_spec h₁, words_afterWord]
  cases words s <;> rfl

/-- **The parser goes by the words** of a request of at most 510 bytes. -/
theorem parse_localBuf (h : NoNul s) (hlen : s.length ≤ 510) (prev : Mem 512) :
    parse overflow (localBuf prev s) = parsedOf overflow (words s) := by
  -- behind the terminator there may be anything
  obtain ⟨r, hr⟩ := localBuf_of_le h hlen prev
  rw [hr, parse_spec h]

end Words

/-- The call that a request asks for, by its words. -/
def askedCall (overflow : Int → Int32) (request : Str) : Option Call :=
  match parsedOf overflow (words request) with
  | .ok (.call c) => some c
  | _ => none

/-! ### Replies -/

/-- The reply made by the format of an error starts as its format does. -/
theorem exists_refuse {fmt : Str} {args : List Arg} (s t : Str) (ps : List Piece)
    (hpieces : pieces fmt = some (.text (s ++ t) :: ps)) (hrender : (render ps args).isSome = true)
    (hs : s.length ≤ 511) : ∃ r, refuse fmt args = .ok (.refused (s ++ r)) := by
  obtain ⟨rest, hrest⟩ := Option.isSome_iff_exists.mp hrender
  have hformat : format fmt args = some (s ++ (t ++ rest)) := by
    rw [format, hpieces, Option.bind_some, render, hrest, Option.map_some, List.append_assoc]
  refine ⟨(t ++ rest).take (511 - s.length), ?_⟩
  rw [refuse, snprintf, hformat]
  simp only [List.take_append, List.take_of_length_le hs]
  rfl

theorem exists_refuse_empty : ∃ r, refuse (bytes "ERROR: Empty command") [] =
    .ok (.refused (bytes "ERROR: " ++ r)) :=
  exists_refuse (bytes "ERROR: ") (bytes "Empty command") [] (by decide +kernel) rfl (by decide)

theorem exists_refuse_login : ∃ r, refuse (bytes "ERROR: Usage: login <user> <pin>") [] =
    .ok (.refused (bytes "ERROR: Usage: " ++ r)) :=
  exists_refuse (bytes "ERROR: Usage: ") (bytes "login <user> <pin>") [] (by decide +kernel) rfl
    (by decide)

theorem exists_refuse_register : ∃ r, refuse (bytes "ERROR: Usage: register <user> <pin>") [] =
    .ok (.refused (bytes "ERROR: Usage: " ++ r)) :=
  exists_refuse (bytes "ERROR: Usage: ") (bytes "register <user> <pin>") [] (by decide +kernel) rfl
    (by decide)

theorem exists_refuse_tx : ∃ r,
    refuse (bytes "ERROR: Usage: tx <token> <src> <dest> <type> <amt>") [] =
      .ok (.refused (bytes "ERROR: Usage: " ++ r)) :=
  exists_refuse (bytes "ERROR: Usage: ") (bytes "tx <token> <src> <dest> <type> <amt>") []
    (by decide +kernel) rfl (by decide)

theorem exists_refuse_unknown (cmd : Str) : ∃ r,
    refuse (bytes "ERROR: Unknown command: %s") [.str cmd] =
      .ok (.refused (bytes "ERROR: " ++ r)) :=
  exists_refuse (bytes "ERROR: ") (bytes "Unknown command: ") [.str] (by decide +kernel) rfl
    (by decide)

/-! ### The calls of a request -/

/-- The call that two words more ask for. -/
def credentialsCalls (op : Str → Str → Auth.Op) : List Str → List Call
  | user :: pin :: _ => [.auth (op user pin)]
  | _ => []

/-- The call that five words more ask for. -/
def txCalls (overflow : Int → Int32) : List Str → List Call
  | token :: src :: dest :: type :: amt :: _ =>
    [.bank ⟨atoi overflow token, src, dest, type, atoi overflow amt⟩]
  | _ => []

/-- The calls that the words of a request ask for. -/
def wordCalls (overflow : Int → Int32) : List Str → List Call
  | [] => []
  | cmd :: args =>
    if cmd = bytes "login" then credentialsCalls .login args
    else if cmd = bytes "register" then credentialsCalls .registerUser args
    else if cmd = bytes "tx" then txCalls overflow args
    else []

/-- The word is a command. -/
def IsCommand (cmd : Str) : Prop := cmd = bytes "login" ∨ cmd = bytes "register" ∨ cmd = bytes "tx"

instance (cmd : Str) : Decidable (IsCommand cmd) := inferInstanceAs (Decidable (_ ∨ _ ∨ _))

/-- What a request leads to: its one call, or an error reply, which is about the usage if the
request has a command. -/
structure Leads (calls : List Call) (command : Prop) (out : Except Fault Parsed) : Prop where
  call : ∀ c ∈ calls, calls = [c] ∧ out = .ok (.call c)
  refused : calls = [] → ∃ r, out = .ok (.refused (bytes "ERROR: " ++ r))
  usage : calls = [] → command → ∃ r, out = .ok (.refused (bytes "ERROR: Usage: " ++ r))

theorem Leads.exists_ok {calls : List Call} {command : Prop} {out : Except Fault Parsed}
    (h : Leads calls command out) : ∃ p, out = .ok p := by
  cases calls with
  | nil =>
    obtain ⟨r, hr⟩ := h.refused rfl
    exact ⟨_, hr⟩
  | cons c cs => exact ⟨.call c, (h.call c (List.mem_cons_self ..)).2⟩

theorem leads_call (c : Call) (command : Prop) : Leads [c] command (.ok (.call c)) where
  call := by
    rintro c' hc
    obtain rfl := List.mem_singleton.mp hc
    exact ⟨rfl, rfl⟩
  refused := nofun
  usage := nofun

theorem leads_usage {fmt : Str} {args : List Arg} (command : Prop)
    (h : ∃ r, refuse fmt args = .ok (.refused (bytes "ERROR: Usage: " ++ r))) :
    Leads [] command (refuse fmt args) where
  call := nofun
  refused := by
    obtain ⟨r, hr⟩ := h
    exact fun _ => ⟨bytes "Usage: " ++ r, by rw [hr, ← List.append_assoc]; rfl⟩
  usage _ _ := h

theorem leads_error {fmt : Str} {args : List Arg} {command : Prop} (hcommand : ¬ command)
    (h : ∃ r, refuse fmt args = .ok (.refused (bytes "ERROR: " ++ r))) :
    Leads [] command (refuse fmt args) where
  call := nofun
  refused _ := h
  usage _ hc := absurd hc hcommand

theorem leads_credentials (op : Str → Str → Auth.Op) {usage : Str} (command : Prop)
    (h : ∃ r, refuse usage [] = .ok (.refused (bytes "ERROR: Usage: " ++ r))) (args : List Str) :
    Leads (credentialsCalls op args) command (credentialsOf op usage args) := by
  rcases args with _ | ⟨user, _ | ⟨pin, ws⟩⟩
  · exact leads_usage command h
  · exact leads_usage command h
  · exact leads_call _ command

theorem leads_tx (overflow : Int → Int32) (command : Prop) (args : List Str) :
    Leads (txCalls overflow args) command (txOf overflow args) := by
  rcases args with _ | ⟨token, _ | ⟨src, _ | ⟨dest, _ | ⟨type, _ | ⟨amt, ws⟩⟩⟩⟩⟩
  · exact leads_usage command exists_refuse_tx
  · exact leads_usage command exists_refuse_tx
  · exact leads_usage command exists_refuse_tx
  · exact leads_usage command exists_refuse_tx
  · exact leads_usage command exists_refuse_tx
  · exact leads_call _ command

/-- The words of a request lead to the call they ask for, or to an error reply. -/
theorem leads_parsedOf (overflow : Int → Int32) (ws : List Str) :
    Leads (wordCalls overflow ws) (∃ cmd ∈ ws.head?, IsCommand cmd) (parsedOf overflow ws) := by
  cases ws with
  | nil => exact leads_error (by simp) exists_refuse_empty
  | cons cmd args =>
    rw [wordCalls, parsedOf]
    split_ifs with hlogin hregister htx
    · exact leads_credentials _ _ exists_refuse_login args
    · exact leads_credentials _ _ exists_refuse_register args
    · exact leads_tx overflow _ args
    · exact leads_error (by simp [IsCommand, hlogin, hregister, htx]) (exists_refuse_unknown cmd)

/-- The words that replies start with. -/
def replyWords : List Str :=
  ["ERROR:", "LOGIN_RESULT:", "REGISTER_RESULT:", "TX_RESULT:"].map bytes

/-- The text starts as a reply. -/
def IsReply (s : Str) : Prop := ∃ w r, s = w ++ space :: r ∧ w ∈ replyWords

/-- A word that replies start with is one word, and no command. -/
theorem replyWords_spec : ∀ w ∈ replyWords, w ≠ [] ∧ space ∉ w ∧ NoNul w ∧ w.length < 511 ∧
    w ≠ bytes "login" ∧ w ≠ bytes "register" ∧ w ≠ bytes "tx" := by
  decide

/-- A text formatted with such a word at its start. -/
theorem isReply_snprintf {fmt text : Str} (w s : Str) (ps : List Piece) {args : List Arg}
    (hpieces : pieces fmt = some (.text (w ++ space :: s) :: ps)) (hw : w ∈ replyWords)
    (h : snprintf 512 fmt args = .ok text) : IsReply text := by
  obtain ⟨-, -, -, hlen, -⟩ := replyWords_spec w hw
  unfold snprintf format at h
  rw [hpieces, Option.bind_some, render] at h
  cases hrest : render ps args with
  | none => simp [hrest] at h
  | some rest =>
    simp only [hrest, Option.map_some, Except.ok.injEq] at h
    refine ⟨w, (s ++ rest).take (511 - w.length - 1), ?_, hw⟩
    rw [← h, List.append_assoc, List.cons_append, List.take_append,
      List.take_of_length_le (by omega), List.take_cons (by omega)]

theorem isReply_refuse {fmt reply : Str} (s : Str) (ps : List Piece) {args : List Arg}
    (hpieces : pieces fmt = some (.text (bytes "ERROR:" ++ space :: s) :: ps))
    (h : refuse fmt args = .ok (.refused reply)) : IsReply reply := by
  cases htext : snprintf 512 fmt args with
  | error e => simp [refuse, htext, Except.map] at h
  | ok text =>
    obtain rfl : text = reply := by simpa [refuse, htext, Except.map] using h
    exact isReply_snprintf _ s ps hpieces (by decide) htext

section Replies

variable {overflow : Int → Int32}

theorem isReply_credentials {op : Str → Str → Auth.Op} {usage p reply : Str} (s : Str)
    (ps : List Piece) (hpieces : pieces usage = some (.text (bytes "ERROR:" ++ space :: s) :: ps))
    (h : parseCredentials op usage p = .ok (.refused reply)) : IsReply reply := by
  unfold parseCredentials at h
  obtain ⟨⟨user, p₁⟩, -, h⟩ := except_bind_eq_ok.mp h
  obtain ⟨⟨pin, p₂⟩, -, h⟩ := except_bind_eq_ok.mp h
  dsimp only at h
  split at h
  · cases h
  · exact isReply_refuse s ps hpieces h

theorem isReply_tx {p reply : Str} (h : parseTx overflow p = .ok (.refused reply)) :
    IsReply reply := by
  unfold parseTx at h
  iterate 5 obtain ⟨⟨_, _⟩, -, h⟩ := except_bind_eq_ok.mp h
  dsimp only at h
  split at h
  · cases h
  · exact isReply_refuse (bytes "Usage: tx <token> <src> <dest> <type> <amt>") []
      (by decide +kernel) h

/-- The replies of the parser start as replies. -/
theorem isReply_parse {buf reply : Str} (h : parse overflow buf = .ok (.refused reply)) :
    IsReply reply := by
  unfold parse at h
  obtain ⟨⟨cmd, p⟩, -, h⟩ := except_bind_eq_ok.mp h
  dsimp only at h
  cases cmd with
  | none =>
    exact isReply_refuse (bytes "Empty command") [] (by decide +kernel) h
  | some cmd =>
    dsimp only at h
    split_ifs at h
    · exact isReply_credentials (bytes "Usage: login <user> <pin>") []
        (by decide +kernel) h
    · exact isReply_credentials (bytes "Usage: register <user> <pin>") []
        (by decide +kernel) h
    · exact isReply_tx h
    · exact isReply_refuse (bytes "Unknown command: ") [.str] (by decide +kernel) h

/-- So do the replies for results. -/
theorem isReply_replyTo {c : Call} {result : Int32} {reply : Str}
    (h : replyTo c result = .ok reply) : IsReply reply := by
  unfold replyTo at h
  split at h
  · exact isReply_snprintf (bytes "LOGIN_RESULT:") [] [.int] (by decide +kernel)
      (by decide) h
  · exact isReply_snprintf (bytes "REGISTER_RESULT:") [] [.int]
      (by decide +kernel) (by decide) h
  · exact isReply_snprintf (bytes "TX_RESULT:") [] [.int] (by decide +kernel)
      (by decide) h

/-! ### Replies are C strings -/

/-- The body of a C string that fits `reply`. -/
def FitsReply (s : Str) : Prop := NoNul s ∧ s.length < 512

theorem fitsReply_refuse {fmt reply : Str} {args : List Arg} (hfmt : NoNul fmt)
    (hargs : ∀ s, .str s ∈ args → NoNul s) (h : refuse fmt args = .ok (.refused reply)) :
    FitsReply reply := by
  cases htext : snprintf 512 fmt args with
  | error e => simp [refuse, htext, Except.map] at h
  | ok text =>
    obtain rfl : text = reply := by simpa [refuse, htext, Except.map] using h
    exact snprintf_spec (by decide) hfmt hargs htext

theorem fitsReply_credentials {op : Str → Str → Auth.Op} {usage p reply : Str}
    (husage : NoNul usage) (h : parseCredentials op usage p = .ok (.refused reply)) :
    FitsReply reply := by
  unfold parseCredentials at h
  obtain ⟨⟨user, p₁⟩, -, h⟩ := except_bind_eq_ok.mp h
  obtain ⟨⟨pin, p₂⟩, -, h⟩ := except_bind_eq_ok.mp h
  dsimp only at h
  split at h
  · cases h
  · exact fitsReply_refuse husage (by simp) h

theorem fitsReply_tx {p reply : Str} (h : parseTx overflow p = .ok (.refused reply)) :
    FitsReply reply := by
  unfold parseTx at h
  iterate 5 obtain ⟨⟨_, _⟩, -, h⟩ := except_bind_eq_ok.mp h
  dsimp only at h
  split at h
  · cases h
  · exact fitsReply_refuse (by decide) (by simp) h

/-- The replies of the parser. -/
theorem fitsReply_parse {buf reply : Str} (h : parse overflow buf = .ok (.refused reply)) :
    FitsReply reply := by
  unfold parse at h
  obtain ⟨⟨cmd, p⟩, hcmd, h⟩ := except_bind_eq_ok.mp h
  dsimp only at h
  cases cmd with
  | none => exact fitsReply_refuse (by decide) (by simp) h
  | some cmd =>
    dsimp only at h
    split_ifs at h
    · exact fitsReply_credentials (by decide) h
    · exact fitsReply_credentials (by decide) h
    · exact fitsReply_tx h
    · refine fitsReply_refuse (by decide) (fun s hs => ?_) h
      obtain rfl : s = cmd := by simpa using hs
      exact noNul_of_strtok hcmd

/-- The replies for results. -/
theorem fitsReply_replyTo {c : Call} {result : Int32} {reply : Str}
    (h : replyTo c result = .ok reply) : FitsReply reply := by
  have hargs : ∀ s, .str s ∈ [Arg.int result.toInt] → NoNul s := by simp
  unfold replyTo at h
  split at h
  · exact snprintf_spec (by decide) (by decide) hargs h
  · exact snprintf_spec (by decide) (by decide) hargs h
  · exact snprintf_spec (by decide) (by decide) hargs h

/-- An error is no call. -/
theorem refuse_ne_call (fmt : Str) (args : List Arg) (c : Call) :
    refuse fmt args ≠ .ok (.call c) := by
  rw [refuse]
  cases snprintf 512 fmt args with
  | error e => exact nofun
  | ok reply => exact nofun

/-- **A reply asks for nothing**: parsed as a request, it leads to no call. -/
theorem parse_of_isReply {s : Str} (h : IsReply s) (prev : Mem 512) (c : Call) :
    parse overflow (localBuf prev s) ≠ .ok (.call c) := by
  obtain ⟨w, r, rfl, hw⟩ := h
  obtain ⟨hne, hspace, hnul, hlen, hlogin, hregister, htx⟩ := replyWords_spec w hw
  have hlen' : (w ++ [space]).length ≤ 511 := by
    rw [List.length_append, List.length_singleton]
    omega
  -- the copy starts with the word and its space, however long the reply is
  have hcopy := strncpy_append (noNul_append.mpr ⟨hnul, by decide⟩) hlen' r
  rw [List.append_assoc, List.singleton_append] at hcopy
  have hword : strtok (localBuf prev (w ++ space :: r)) =
      .ok (some w, strncpy (511 - (w ++ [space]).length) r ++ [prev.byte 511]) := by
    rw [localBuf_eq, hcopy, List.append_assoc, List.append_assoc, List.singleton_append,
      strtok_word hne hspace hnul]
  rw [parse, hword]
  dsimp only [bind, Except.bind]
  rw [if_neg hlogin, if_neg hregister, if_neg htx]
  exact refuse_ne_call _ _ c

end Replies

end BankSel4.Gateway
