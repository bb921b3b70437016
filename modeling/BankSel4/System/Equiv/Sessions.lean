import BankSel4.Auth.Equiv.Directory
import BankSel4.System.Equiv.Records
import BankSel4.System.Equiv.Service

/-!
# What the bank replies

`replies` is the whole of the bank as its client sees it: a directory of credentials, and the reply
to a request by its words.  A transfer is always refused, since the schema calls the key of the
accounts `username` and the texts of a call call it `user`.  While the client reads only at rest,
its responses are these replies to its requests, in order (`responses_prefix_replies`).
-/

namespace BankSel4.System

open Sql Gateway Auth

/-! ### The replies -/

/-- The text of the result of a call of the AuthServer. -/
def resultText (op : Op) (rc : Int) : Str :=
  match op with
  | .login .. => bytes "LOGIN_RESULT: " ++ decimal rc
  | .registerUser .. => bytes "REGISTER_RESULT: " ++ decimal rc

section Replies

variable (overflow : Int → Int32)

/-- The reply to a request, and the directory after it. -/
def reply (d : Directory) (request : Str) : Directory × Str :=
  match parsedOf overflow (words request) with
  | .ok (.call (.auth op)) => ((d.step op).1, resultText op (d.step op).2)
  | .ok (.call (.bank _)) => (d, bytes "TX_RESULT: -1")
  | .ok (.refused text) => (d, text)
  | .error _ => (d, [])

/-- The replies to some requests, in order. -/
def replies : Directory → List Str → List Str
  | _, [] => []
  | d, request :: rest => (reply overflow d request).2 :: replies (reply overflow d request).1 rest

/-- The directory after some requests. -/
def directoryAfter : Directory → List Str → Directory :=
  List.foldl fun d request => (reply overflow d request).1

theorem replies_append (d : Directory) (l l' : List Str) : replies overflow d (l ++ l') =
    replies overflow d l ++ replies overflow (directoryAfter overflow d l) l' := by
  induction l generalizing d with
  | nil => rfl
  | cons request l ih =>
    rw [List.cons_append, replies, ih, replies]
    rfl

theorem directoryAfter_concat (d : Directory) (l : List Str) (request : Str) :
    directoryAfter overflow d (l ++ [request]) =
      (reply overflow (directoryAfter overflow d l) request).1 := List.foldl_append

end Replies

/-! ### The texts of results -/

/-- A result is printed in full. -/
theorem snprintf_result (fmt s : Str) (hpieces : pieces fmt = some [.text s, .int])
    (hlen : s.length ≤ 500) (rc : Int32) :
    snprintf 512 fmt [.int rc.toInt] = .ok (s ++ decimal rc.toInt) := by
  have hdecimal := length_decimal_le rc
  rw [snprintf, format, hpieces, Option.bind_some, render, render, render]
  simp only [Option.map_some, List.append_nil]
  rw [List.take_of_length_le (by rw [List.length_append]; omega)]

theorem replyTo_auth (op : Op) (rc : Int32) :
    replyTo (.auth op) rc = .ok (resultText op rc.toInt) := by
  cases op with
  | login user pin =>
    exact snprintf_result (bytes "LOGIN_RESULT: %d") (bytes "LOGIN_RESULT: ") (by decide +kernel)
      (by decide) rc
  | registerUser user pin =>
    exact snprintf_result (bytes "REGISTER_RESULT: %d") (bytes "REGISTER_RESULT: ")
      (by decide +kernel) (by decide) rc

theorem replyTo_bank (c : Ledger.Call) : replyTo (.bank c) (-1) = .ok (bytes "TX_RESULT: -1") := by
  have h : snprintf 512 (bytes "TX_RESULT: %d") [.int (-1 : Int32).toInt] =
      .ok (bytes "TX_RESULT: " ++ decimal (-1 : Int32).toInt) :=
    snprintf_result _ _ (by decide +kernel) (by decide) (-1)
  have htext : bytes "TX_RESULT: " ++ decimal (-1 : Int32).toInt = bytes "TX_RESULT: -1" := by
    decide +kernel
  rw [← htext]
  exact h

/-! ### The service -/

/-- A request that the bank serves as meant: it fits `local_buf` and has no quotes, and the
credentials in it fit their fields. -/
structure Proper (overflow : Int → Int32) (request : Str) : Prop where
  noNul : NoNul request
  length_le : request.length ≤ 510
  quoteFree : QuoteFree request
  short : ∀ op, askedCall overflow request = some (.auth op) → op.Short

/-- The servers hold a directory, and a database of the schema. -/
structure Holds (k : Name) (s : State) (d : Directory) : Prop where
  represents : Represents s.auth d
  schema : ∃ db ta tl, s.db = some db ∧ Ledger.Schema k db ta tl

section Service

variable {overflow : Int → Int32} {eng : Engine} {k : Name}

/-- The Ledger refuses every call, where the key of the accounts has another name. -/
theorem refused_of_ne (hk : k ≠ Ledger.userCol) {db : Db} {ta tl : Table} {c : Ledger.Call}
    (h : Ledger.Schema k db ta tl) (hc : c.QuoteFree) {fails : Nat → Nat → Bool} {rc : Int32}
    (hret : (Ledger.bankExecuteTransaction eng fails (some db) c).ret = .ok rc) :
    rc = -1 ∧ ∃ db' ta' tl', (Ledger.bankExecuteTransaction eng fails (some db) c).db = some db' ∧
      Ledger.Schema k db' ta' tl' := by
  by_cases htoken : c.token < 1000
  · obtain ⟨⟨db', hdb', hschema⟩, hrc, -⟩ := Ledger.blocked_spec h hc htoken hret
    exact ⟨Except.ok.inj (hret.symm.trans hrc), db', _, _, hdb', hschema⟩
  · obtain ⟨⟨db', hdb', hschema⟩, hrc, -⟩ := Ledger.authorised_spec_of_ne h hk hc htoken hret
    exact ⟨Except.ok.inj (hret.symm.trans hrc), db', _, _, hdb', hschema⟩

/-- **The service replies as the directory does.** -/
theorem Holds.serve (hk : k ≠ Ledger.userCol) {s s' : State} {d : Directory} (h : Holds k s d)
    (hissued : d.issued < 2 ^ 31 - 1001) {x : Str × (Nat → Nat → Bool)} {text : Str}
    (hx : Proper overflow x.1) (hserve : serve overflow eng s x = some (s', text)) :
    text = (reply overflow d x.1).2 ∧ Holds k s' (reply overflow d x.1).1 := by
  obtain ⟨r, hanswer, heq⟩ := Option.map_eq_some_iff.mp hserve
  obtain ⟨rfl, rfl⟩ := Prod.mk.inj heq
  unfold answer at hanswer
  rw [parse_localBuf hx.noNul hx.length_le] at hanswer
  unfold reply
  cases hparsed : parsedOf overflow (words x.1) with
  | error f => simp [hparsed] at hanswer
  | ok parsed =>
    rw [hparsed] at hanswer
    rcases parsed with text | op | c
    · obtain rfl := Option.some.inj hanswer
      exact ⟨rfl, h⟩
    · obtain ⟨⟨s₁, rep⟩, hstep, hreply⟩ := Option.bind_eq_some_iff.mp hanswer
      obtain ⟨text, htext, rfl⟩ := Option.map_eq_some_iff.mp hreply
      obtain ⟨auth', rc, stores, hauth, hrc, hrep⟩ := h.represents.step hissued
        (hx.short op (by rw [askedCall, hparsed]))
      rw [rpcOf, System.step, hauth] at hstep
      obtain ⟨rfl, rfl⟩ := Prod.mk.inj (Option.some.inj hstep)
      have hresult := (replyTo_auth op rc).symm.trans (toOption_eq_some.mp htext)
      rw [hrc] at hresult
      exact ⟨(Except.ok.inj hresult).symm, hrep, h.schema⟩
    · obtain ⟨⟨s₁, rep⟩, hstep, hreply⟩ := Option.bind_eq_some_iff.mp hanswer
      obtain ⟨text, htext, rfl⟩ := Option.map_eq_some_iff.mp hreply
      obtain ⟨db, ta, tl, hdb, hschema⟩ := h.schema
      obtain ⟨rc, hrc, heq⟩ := Option.map_eq_some_iff.mp hstep
      obtain ⟨rfl, rfl⟩ := Prod.mk.inj heq
      rw [hdb] at hrc
      obtain ⟨rfl, db', ta', tl', hdb', hschema'⟩ := refused_of_ne hk hschema
        (quoteFree_of_askedCall hx.quoteFree (by rw [askedCall, hparsed]))
        (toOption_eq_some.mp hrc)
      have hresult := (replyTo_bank c).symm.trans (toOption_eq_some.mp htext)
      exact ⟨(Except.ok.inj hresult).symm, h.represents, db', ta', tl', hdb ▸ hdb', hschema'⟩

/-- A request gives out at most one token. -/
theorem issued_reply_le (d : Directory) (request : Str) :
    (reply overflow d request).1.issued ≤ d.issued + 1 := by
  unfold reply
  split
  · exact d.issued_step_le _
  · exact Nat.le_succ _
  · exact Nat.le_succ _
  · exact Nat.le_succ _

/-- The run of the service: its replies are those of the directory. -/
theorem replies_of_run (hk : k ≠ Ledger.userCol) {s : State} (h0 : Holds k s Directory.empty)
    {xs : List (Str × (Nat → Nat → Bool))} {p : State × List ((Str × (Nat → Nat → Bool)) × Str)}
    (hxs : ∀ x ∈ xs, Proper overflow x.1) (hlen : xs.length < 2 ^ 31 - 1001)
    (hrun : runSteps (withLog (serve overflow eng)) (s, []) xs = some p) :
    p.2.map Prod.snd = replies overflow Directory.empty (xs.map Prod.fst) := by
  suffices h : Holds k p.1 (directoryAfter overflow Directory.empty (xs.map Prod.fst)) ∧
      (directoryAfter overflow Directory.empty (xs.map Prod.fst)).issued ≤ xs.length ∧
      p.2.map Prod.snd = replies overflow Directory.empty (xs.map Prod.fst) from h.2.2
  refine runSteps_invariant
    (P := fun pre _ x => Proper overflow x.1 ∧ pre.length < 2 ^ 31 - 1001)
    (I := fun pre p => Holds k p.1 (directoryAfter overflow Directory.empty (pre.map Prod.fst)) ∧
      (directoryAfter overflow Directory.empty (pre.map Prod.fst)).issued ≤ pre.length ∧
      p.2.map Prod.snd = replies overflow Directory.empty (pre.map Prod.fst))
    ⟨h0, Nat.le_refl 0, rfl⟩ ?_ ?_ hrun
  · rintro pre p x p' - ⟨hholds, hissued, hreplies⟩ ⟨hx, hpre⟩ hs
    obtain ⟨text, hserve, hlog⟩ := withLog_eq_some.mp hs
    obtain ⟨rfl, hholds'⟩ := hholds.serve hk (by omega) hx hserve
    rw [List.map_append, List.map_singleton, directoryAfter_concat, replies_append, ← hreplies,
      hlog, List.map_append]
    refine ⟨hholds', (issued_reply_le _ _).trans ?_, rfl⟩
    rw [List.length_append, List.length_singleton]
    omega
  · rintro pre x post t rfl -
    rw [List.length_append, List.length_cons] at hlen
    exact ⟨hxs x (by simp), by omega⟩

end Service

/-! ### The assembly -/

section Assembly

open Assembly

variable {overflow : Int → Int32} {eng : Engine} {k : Name}

/-- The requests that are written end inside `input_buffer`. -/
theorem noNul_of_mem_requests {db : Option Db} {l : List Action} {q : Logged}
    (hrun : runSteps (withLog (Assembly.step overflow eng)) (Assembly.start db, []) l = some q)
    (hlen : WritesAtMost 510 l) : ∀ request ∈ requests q.2, NoNul request := by
  obtain ⟨l', p, hlen', hp, -, hrequests, -⟩ := exists_bridge_run hrun hlen
  obtain ⟨idx, h⟩ := Bridge.once_run hp hlen'
  intro request hmem
  exact (h.reqs_fit request (hrequests ▸ hmem)).1

/-- **What the client is told.**  When the client reads only at rest, in every interleaving of the
two loops, whichever statements fail, its responses are the replies of the directory to its
requests, in order, and all requests but the last have their response. -/
theorem responses_prefix_replies (hk : k ≠ Ledger.userCol) {vol : Db} (hvol : Ledger.Volume k vol)
    {db : Option Db} (hinit : Ledger.preInit eng Ledger.noFails (some vol) = some db)
    {l : List Action} {q : Logged}
    (hrun : runSteps (withLog (Assembly.step overflow eng)) (Assembly.start db, []) l = some q)
    (hlen : WritesAtMost 510 l)
    (hrest : EveryStep (withLog (Assembly.step overflow eng)) (fun _ => ReadsAtRest)
      (Assembly.start db, []) l)
    (hquote : ∀ request, Action.clientWrite request ∈ l → QuoteFree request)
    (hshort : ∀ request op, Action.clientWrite request ∈ l →
      askedCall overflow request = some (.auth op) → op.Short)
    (htokens : (requests q.2).length < 2 ^ 31 - 1001) :
    responses q.2 <+: replies overflow Directory.empty (requests q.2) ∧
      (requests q.2).length ≤ (responses q.2).length + 1 := by
  obtain ⟨l', p, hp, n, ph, h⟩ := exists_serve_run hrun hlen hrest
  have hactions : p.2.map Prod.fst = l' := map_fst_log hp
  have hrequests : requests q.2 = l'.map Prod.fst ++ asked q.1.bridge.slot.text ph := by
    rw [h.requests_eq, ← hactions, List.map_map]
    rfl
  have hproper : ∀ x ∈ l', Proper overflow x.1 := by
    intro x hx
    have hmem : x.1 ∈ requests q.2 := by
      rw [hrequests]
      exact List.mem_append_left _ (List.mem_map_of_mem hx)
    have hwrite := mem_of_mem_requests hrun hmem
    exact ⟨noNul_of_mem_requests hrun hlen _ hmem, hlen _ hwrite, hquote _ hwrite,
      fun op hop => hshort _ op hwrite hop⟩
  obtain ⟨d₀, hd₀, h₀⟩ := Ledger.preInit_spec hvol eng
  obtain rfl := Option.some.inj (hinit.symm.trans hd₀)
  have hreplies := replies_of_run hk ⟨represents_init, d₀, _, _, rfl, h₀⟩ hproper
    (by rw [hrequests, List.length_append, List.length_map] at htokens; omega) hp
  refine ⟨?_, h.length_le⟩
  -- the replies to the requests that are served come first
  rw [hrequests, replies_append, ← hreplies, h.replies_eq, List.append_assoc]
  exact List.prefix_append _ _

end Assembly

theorem responses_prefix_replies_visit : ∃ q,
    runSteps (withLog (Assembly.step Int32.ofInt Ledger.plainEngine))
      (Assembly.start Ledger.firstDb, []) (Assembly.visit.flatMap Assembly.round) = some q ∧
    Assembly.responses q.2 <+:
      replies Int32.ofInt Directory.empty (Assembly.requests q.2) ∧
    (Assembly.requests q.2).length ≤ (Assembly.responses q.2).length + 1 := by
  have hsome : (runSteps (withLog (Assembly.step Int32.ofInt Ledger.plainEngine))
      (Assembly.start Ledger.firstDb, []) (Assembly.visit.flatMap Assembly.round)).any
        (fun q => decide ((Assembly.requests q.2).length = 3)) = true := by
    decide +kernel
  obtain ⟨q, hrun, hcount⟩ := (Option.any_eq_true _ _).mp hsome
  refine ⟨q, hrun, responses_prefix_replies (by decide) Ledger.volume_empty rfl hrun ?_
    (by decide +kernel) ?_ ?_ ?_⟩
  · intro request hmem
    obtain ⟨x, hx, rfl⟩ := Assembly.exists_of_mem_rounds hmem
    exact Assembly.length_visit x hx
  · intro request hmem
    obtain ⟨x, hx, rfl⟩ := Assembly.exists_of_mem_rounds hmem
    have hquote : ∀ x ∈ Assembly.visit, QuoteFree x.1 := by decide
    exact hquote x hx
  · intro request op hmem hasked
    obtain ⟨x, hx, rfl⟩ := Assembly.exists_of_mem_rounds hmem
    have hshort : ∀ x ∈ Assembly.visit, ∀ c ∈ askedCall Int32.ofInt x.1,
        c ∈ [.auth (.registerUser (bytes "Alice") (bytes "1234")),
          .auth (.login (bytes "Alice") (bytes "1234")), .bank Ledger.mockCall] := by
      decide +kernel
    have hmem := hshort x hx _ hasked
    simp only [List.mem_cons, List.not_mem_nil, or_false, reduceCtorEq, Call.auth.injEq] at hmem
    rcases hmem with rfl | rfl <;> decide
  · rw [of_decide_eq_true hcount]
    decide

end BankSel4.System
