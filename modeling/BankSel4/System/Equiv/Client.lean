import BankSel4.Gateway.Equiv.Requests
import BankSel4.Ledger.Equiv.Runs
import BankSel4.System.Equiv.Service

/-!
# The client's own requests

The client of `client.c` writes one request over and over, the transfer of `mock_data`.  The schema
calls the key of the accounts `username` and the texts of a call call it `user`, so the transfer
fails, whatever the interleaving: the AuthServer and both tables stay as they are, and the client
sees nothing but its request, the refusal and the errors that the gateway makes of its own replies
(`never_transfers`).
-/

namespace BankSel4.System

open Sql Gateway Bridge

/-! ### The texts -/

theorem readInput_eq : readInput = mockData := by
  have hnul : NoNul mockData := by decide
  rw [readInput, strncpy_of_lt hnul (by decide), List.append_assoc, List.cons_append,
    List.takeWhile_append_of_pos fun c hc => ?_]
  · simp
  · exact bne_iff_ne.mpr fun h => hnul (h ▸ hc)

/-- What the client can find in the dataport. -/
def shown : List Str :=
  ["tx 1001 Alice Bob TRANSFER 100", "TX_RESULT: -1", "ERROR: Unknown command: TX_RESULT:",
    "ERROR: Unknown command: ERROR:"].map bytes

theorem mockData_mem_shown : mockData ∈ shown := List.mem_cons_self

theorem shown_fits : ∀ text ∈ shown, NoNul text ∧ text.length ≤ 510 := by decide

section Answers

variable {overflow : Int → Int32} {eng : Engine}

/-- The request asks for the transfer. -/
theorem parsedOf_mockData : parsedOf overflow (words mockData) =
    .ok (.call (.bank Ledger.mockCall)) := by
  have hfield : ∀ w ∈ ["Alice", "Bob", "TRANSFER"].map bytes, w ≠ [] ∧ space ∉ w ∧ NoNul w := by
    decide
  have hisField : ∀ w ∈ ["Alice", "Bob", "TRANSFER"].map bytes, IsField w := fun w hw =>
    ⟨(hfield w hw).1, (hfield w hw).2.1, (hfield w hw).2.2⟩
  have htext : mockData = txText 1001 (bytes "Alice") (bytes "Bob") (bytes "TRANSFER") 100 := by
    decide +kernel
  rw [htext, words_txText 1001 100 (hisField _ (by simp)) (hisField _ (by simp))
    (hisField _ (by simp))]
  have htx : parsedOf overflow [bytes "tx", decimal (1001 : Int32).toInt, bytes "Alice",
      bytes "Bob", bytes "TRANSFER", decimal (100 : Int32).toInt] =
      .ok (.call (.bank ⟨atoi overflow (decimal (1001 : Int32).toInt), bytes "Alice", bytes "Bob",
        bytes "TRANSFER", atoi overflow (decimal (100 : Int32).toInt)⟩)) := rfl
  rw [htx, atoi_decimal, atoi_decimal]
  rfl

/-- A command that the gateway does not know is refused. -/
theorem parsedOf_unknown {cmd : Str} (h : ¬ IsCommand cmd) (args : List Str) :
    parsedOf overflow (cmd :: args) = refuse (bytes "ERROR: Unknown command: %s") [.str cmd] := by
  obtain ⟨hlogin, h⟩ := not_or.mp h
  obtain ⟨hregister, htx⟩ := not_or.mp h
  rw [parsedOf, if_neg hlogin, if_neg hregister, if_neg htx]

variable (overflow) in
/-- The other texts are refused, with one of them. -/
theorem parsedOf_shown {text : Str} (h : text ∈ shown) (hne : text ≠ mockData) :
    ∃ reply ∈ shown, parsedOf overflow (words text) = .ok (.refused reply) := by
  have hrefused : ∀ text ∈ shown, text ≠ mockData → ∃ cmd ∈ (words text).head?,
      ¬ IsCommand cmd ∧ ∃ reply ∈ shown,
        refuse (bytes "ERROR: Unknown command: %s") [.str cmd] = .ok (.refused reply) := by
    decide +kernel
  obtain ⟨cmd, hhead, hcmd, reply, hreply, hrefuse⟩ := hrefused text h hne
  obtain ⟨args, hwords⟩ := List.head?_eq_some_iff.mp hhead
  refine ⟨reply, hreply, ?_⟩
  rw [hwords, parsedOf_unknown hcmd, hrefuse]

/-! ### The answers -/

/-- The servers as `pre_init` has left them. -/
structure Untouched (k : Name) (ta tl : Table) (s : State) : Prop where
  auth_eq : s.auth = Auth.State.init
  exists_db : ∃ d, s.db = some d ∧ Ledger.Schema k d ta tl

/-- The refused transfer, with the texts that the Ledger has executed. -/
def refusedCall (log : List Ledger.Exec) : Gateway.Call × Reply :=
  (.bank Ledger.mockCall, .bank ⟨-1, log⟩)

variable {k : Name} {ta tl : Table} {servers : State}

variable (eng) in
/-- The Ledger refuses the transfer, and keeps its tables. -/
theorem step_mockCall (hk : k ≠ Ledger.userCol) (h : Untouched k ta tl servers)
    (fails : Nat → Nat → Bool) : ∃ servers' log,
      step eng servers (rpcOf fails (.bank Ledger.mockCall)) = some (servers', .bank ⟨-1, log⟩) ∧
        Untouched k ta tl servers' := by
  obtain ⟨d, hd, hschema⟩ := h.exists_db
  have htoken : ¬ Ledger.mockCall.token < 1000 := by decide
  obtain ⟨rc, hrc⟩ :=
    Ledger.exists_ret_of_textsFit eng fails d htoken Ledger.textsFit_mockCall
  obtain ⟨⟨d', hd', hschema'⟩, hret, -⟩ := Ledger.authorised_spec_of_ne hschema hk
    ⟨by decide, by decide, by decide⟩ htoken hrc
  refine ⟨⟨servers.auth, some d'⟩,
    (Ledger.bankExecuteTransaction eng fails (some d) Ledger.mockCall).log, ?_,
    h.auth_eq, d', rfl, hschema'⟩
  rw [rpcOf, step, hd, hret, hd']
  rfl

variable (overflow) (eng) in
/-- The answer to each of the texts is one of them, and its call is the refused transfer. -/
theorem answer_shown (hk : k ≠ Ledger.userCol) (h : Untouched k ta tl servers) {text : Str}
    (htext : text ∈ shown) (fails : Nat → Nat → Bool) (prev : Mem 512) :
    ∃ r, answer overflow eng fails servers (localBuf prev text) = some r ∧ r.reply ∈ shown ∧
      Untouched k ta tl r.servers ∧ ∀ x ∈ r.call, ∃ log, x = refusedCall log := by
  obtain ⟨hnul, hlen⟩ := shown_fits text htext
  unfold answer
  rw [parse_localBuf hnul hlen]
  by_cases hmock : text = mockData
  · obtain ⟨servers', log, hstep, h'⟩ := step_mockCall eng hk h fails
    have hreply : (replyTo (.bank Ledger.mockCall) (-1)).toOption = some (bytes "TX_RESULT: -1") := by
      decide +kernel
    rw [hmock, parsedOf_mockData]
    dsimp only
    rw [hstep, Option.bind_some]
    refine ⟨⟨servers', bytes "TX_RESULT: -1", some (refusedCall log)⟩, ?_, by simp [shown], h',
      fun x hx => ⟨log, (Option.some.inj hx).symm⟩⟩
    rw [show (Reply.bank ⟨-1, log⟩).rc = -1 from rfl, hreply]
    rfl
  · obtain ⟨reply, hreply, hparsed⟩ := parsedOf_shown overflow htext hmock
    rw [hparsed]
    exact ⟨⟨servers, reply, none⟩, rfl, hreply, h, nofun⟩

end Answers

/-! ### Runs -/

/-- What is in the dataport, in `local_buf` and in the reply is one of the texts, and the servers
are untouched.  Before the first request nothing has been read. -/
structure Mock (k : Name) (ta tl : Table) (s : Assembly) : Prop where
  untouched : Untouched k ta tl s.servers
  slot : s.bridge.slot.text ∈ shown ∨
    s.bridge.client = .input ∧ s.bridge.dataReady = false ∧ s.bridge.gateway = .waiting
  loaded : ∀ buf o, s.bridge.gateway = .loaded buf o →
    ∃ prev, ∃ text ∈ shown, buf = localBuf prev text
  answered : ∀ reply o, s.bridge.gateway = .answered reply o → reply ∈ shown

section Mock

open Assembly

variable {overflow : Int → Int32} {eng : Engine} {k : Name} {ta tl : Table} {s s' : Assembly}
  {a : Action} {e : Option Event}

/-- Once a request is written, the dataport holds one of the texts. -/
theorem Mock.slot_of_ne (h : Mock k ta tl s) (hne : s.bridge.client ≠ .input ∨
    s.bridge.dataReady = true ∨ s.bridge.gateway ≠ .waiting) : s.bridge.slot.text ∈ shown := by
  rcases h.slot with hslot | ⟨hclient, hready, hgateway⟩
  · exact hslot
  · simp [hclient, hready, hgateway] at hne

/-- The loops keep to the texts. -/
theorem Mock.of_bridge {b : Bridge.Action} {call : Option Gateway.Call} (h : Mock k ta tl s)
    (hb : loopAction a = some b) (ha : ∀ request, a = .clientWrite request → request = readInput)
    (hservers : s'.servers = s.servers) {t : Bridge.State}
    (hs : Bridge.Step overflow s.bridge b call t) (ht : s'.bridge = t) : Mock k ta tl s' := by
  obtain ⟨huntouched, hslot, hloaded, hanswered⟩ := id h
  refine ⟨hservers ▸ huntouched, ?_, ?_, ?_⟩
  all_goals
    rw [ht]
    clear ht
  · cases hs with
    | clientWrite request hclient hnul hlen =>
      cases a with
      | clientWrite request' =>
        obtain rfl : request' = request := by simpa [loopAction] using hb
        rw [ha _ rfl, readInput_eq]
        exact Or.inl mockData_mem_shown
      | _ => simp [loopAction] at hb
    | clientEmit hclient => exact Or.inl (h.slot_of_ne (Or.inl (by simp [hclient])))
    | clientRead hclient => exact Or.inl (h.slot_of_ne (Or.inl (by simp [hclient])))
    | gatewayWait hgateway hready => exact Or.inl (h.slot_of_ne (Or.inr (Or.inl hready)))
    | gatewayRead prev hgateway =>
      exact Or.inl (h.slot_of_ne (Or.inr (Or.inr (by simp [hgateway]))))
    | gatewayDispatch result buf origin reply call hgateway =>
      exact Or.inl (h.slot_of_ne (Or.inr (Or.inr (by simp [hgateway]))))
    | gatewayWrite reply origin hgateway => exact Or.inl (hanswered reply origin hgateway)
  · cases hs with
    | gatewayRead prev hgateway =>
      intro buf o hbuf
      obtain ⟨rfl, -⟩ := GatewayPc.loaded.inj hbuf
      exact ⟨prev, _, h.slot_of_ne (Or.inr (Or.inr (by simp [hgateway]))), rfl⟩
    | clientWrite | clientEmit | clientRead => exact hloaded
    | gatewayWait | gatewayDispatch | gatewayWrite => simp
  · cases hs with
    | clientWrite | clientEmit | clientRead => exact hanswered
    | gatewayDispatch => cases a <;> simp [loopAction] at hb
    | gatewayWait | gatewayRead | gatewayWrite => simp

/-- The step: the client's own requests keep the loops to these texts. -/
theorem Mock.step (hk : k ≠ Ledger.userCol) (h : Mock k ta tl s)
    (ha : ∀ request, a = .clientWrite request → request = readInput)
    (hs : s.step overflow eng a = some (s', e)) :
    Mock k ta tl s' ∧ (∀ x ∈ e.bind Event.call?, ∃ log, x = refusedCall log) ∧
      ∀ response ∈ e.bind Event.response?, response ∈ shown := by
  cases hb : loopAction a with
  | some b =>
    obtain ⟨hservers, hcall, -, call, hbridge⟩ := step_loop hb hs
    have hstep := Bridge.step_eq_some hbridge
    refine ⟨h.of_bridge hb ha hservers hstep rfl, by simp [hcall], ?_⟩
    by_cases hread : a = .clientRead
    · subst hread
      obtain rfl := Option.some.inj hb
      rw [response_of_clientRead hs]
      intro response hresponse
      rw [← Option.some.inj hresponse]
      generalize s'.bridge = t at hstep
      cases hstep with
      | clientRead hclient => exact h.slot_of_ne (Or.inl (by simp [hclient]))
    · simp [response_eq_none hread hs]
  | none =>
    cases a with
    | gatewayDispatch fails =>
      have hresponse := response_eq_none (by simp) hs
      obtain ⟨buf, origin, r, hgateway, hanswer, rfl, rfl⟩ := step_dispatch hs
      obtain ⟨prev, text, htext, hbuf⟩ := h.loaded buf origin hgateway
      rw [hbuf] at hanswer
      obtain ⟨r', hr', hreply, huntouched, hcall⟩ := answer_shown overflow eng hk h.untouched htext
        fails prev
      obtain rfl := Option.some.inj (hr'.symm.trans hanswer)
      refine ⟨⟨huntouched, ?_, nofun, ?_⟩, ?_, by simp [hresponse]⟩
      · exact Or.inl (h.slot_of_ne (Or.inr (Or.inr (by simp [hgateway]))))
      · intro reply o hgw
        obtain ⟨rfl, -⟩ := GatewayPc.answered.inj hgw
        exact hreply
      · cases hr : r'.call with
        | none => nofun
        | some x =>
          intro y hy
          obtain rfl : x = y := by simpa [Event.call?] using hy
          exact hcall x hr
    | _ => cases hb

end Mock

end BankSel4.System
