import BankSel4.Ledger.Equiv.Tables
import BankSel4.System.Equiv.Sessions

/-!
# What the requests leave in the database

While the client reads only at rest and there is storage, no transaction is lost: the database after
a run is that of the Ledger on the calls that the requests ask for, up to the last request that is
served (`exists_ledger_run`).  A request is in it as soon as the client has its response.

So the two tables are a function of the requests, `tables_of_requests`, and from empty tables with
the key `user` the balances are what the requests deposit, withdraw and transfer:
`balances_of_requests`.
-/

namespace BankSel4.System

open Sql Gateway

/-- The call of the Ledger that a request asks for. -/
def bankCall? (overflow : Int → Int32) (request : Str) : Option Ledger.Call :=
  match askedCall overflow request with
  | some (.bank c) => some c
  | _ => none

section Service

variable {overflow : Int → Int32} {eng : Engine}

theorem bankCall?_eq_some {request : Str} {c : Ledger.Call} :
    bankCall? overflow request = some c ↔ askedCall overflow request = some (.bank c) := by
  unfold bankCall?
  rcases askedCall overflow request with - | op | c'
  · simp
  · simp
  · simp

/-- **The service serves the calls of the Ledger** as the Ledger does. -/
theorem next_of_serve {s s' : State} {x : Str × (Nat → Nat → Bool)} {text : Str}
    (hnul : NoNul x.1) (hlen : x.1.length ≤ 510) (hfails : x.2 = Ledger.noFails)
    (hserve : serve overflow eng s x = some (s', text)) :
    runSteps (Ledger.next eng) s.db (bankCall? overflow x.1).toList = some s'.db := by
  obtain ⟨r, hanswer, heq⟩ := Option.map_eq_some_iff.mp hserve
  obtain ⟨rfl, rfl⟩ := Prod.mk.inj heq
  unfold answer at hanswer
  rw [parse_localBuf hnul hlen] at hanswer
  unfold bankCall? askedCall
  cases hparsed : parsedOf overflow (words x.1) with
  | error f => simp [hparsed] at hanswer
  | ok parsed =>
    rw [hparsed] at hanswer
    rcases parsed with text | op | c
    · obtain rfl := Option.some.inj hanswer
      rfl
    · -- a call of the AuthServer leaves the database
      obtain ⟨⟨s₁, rep⟩, hstep, hreply⟩ := Option.bind_eq_some_iff.mp hanswer
      obtain ⟨text, -, rfl⟩ := Option.map_eq_some_iff.mp hreply
      obtain ⟨a, -, heq⟩ := Option.map_eq_some_iff.mp hstep
      obtain ⟨rfl, -⟩ := Prod.mk.inj heq
      rfl
    · obtain ⟨⟨s₁, rep⟩, hstep, hreply⟩ := Option.bind_eq_some_iff.mp hanswer
      obtain ⟨text, -, rfl⟩ := Option.map_eq_some_iff.mp hreply
      obtain ⟨rc, hrc, heq⟩ := Option.map_eq_some_iff.mp hstep
      obtain ⟨rfl, -⟩ := Prod.mk.inj heq
      rw [hfails] at hrc ⊢
      have hnext : Ledger.next eng s.db c =
          some (Ledger.bankExecuteTransaction eng Ledger.noFails s.db c).db := by
        rw [Ledger.next, Ledger.step, hrc]
        rfl
      change runSteps (Ledger.next eng) s.db [c] = _
      rw [runSteps_cons, hnext]
      rfl

/-- A run of the service is one of the Ledger. -/
theorem ledger_run_of_serve {s : State} {xs : List (Str × (Nat → Nat → Bool))}
    {p : State × List ((Str × (Nat → Nat → Bool)) × Str)}
    (hfits : ∀ x ∈ xs, NoNul x.1 ∧ x.1.length ≤ 510) (hfails : ∀ x ∈ xs, x.2 = Ledger.noFails)
    (hrun : runSteps (withLog (serve overflow eng)) (s, []) xs = some p) :
    runSteps (Ledger.next eng) s.db ((xs.map Prod.fst).filterMap (bankCall? overflow)) =
      some p.1.db := by
  refine runSteps_invariant
    (P := fun _ _ x => (NoNul x.1 ∧ x.1.length ≤ 510) ∧ x.2 = Ledger.noFails)
    (I := fun pre p => runSteps (Ledger.next eng) s.db
      ((pre.map Prod.fst).filterMap (bankCall? overflow)) = some p.1.db) rfl ?_ ?_ hrun
  · rintro pre p x p' - hpre ⟨⟨hnul, hlen⟩, hx⟩ hs
    obtain ⟨text, hserve, -⟩ := withLog_eq_some.mp hs
    have hone : [x.1].filterMap (bankCall? overflow) = (bankCall? overflow x.1).toList := by
      cases h : bankCall? overflow x.1 <;> simp [h]
    rw [List.map_append, List.map_singleton, List.filterMap_append, runSteps_append, hpre, hone]
    exact next_of_serve hnul hlen hx hserve
  · rintro pre x post t rfl -
    exact ⟨hfits x (by simp), hfails x (by simp)⟩

end Service

section Assembly

open Assembly

variable {overflow : Int → Int32} {eng : Engine} {k : Name} {vol : Db} {db : Option Db}
  {l : List Action} {q : Logged}

/-- A run of the assembly is one of the Ledger, on the calls of the requests that are served. -/
theorem exists_ledger_run
    (hrun : runSteps (withLog (Assembly.step overflow eng)) (Assembly.start db, []) l = some q)
    (hlen : WritesAtMost 510 l)
    (hrest : EveryStep (withLog (Assembly.step overflow eng)) (fun _ => ReadsAtRest)
      (Assembly.start db, []) l)
    (hstorage : ∀ fails, Action.gatewayDispatch fails ∈ l → fails = Ledger.noFails) :
    ∃ served, served <+: requests q.2 ∧ (responses q.2).length ≤ served.length ∧
      (requests q.2).length ≤ served.length + 1 ∧
      runSteps (Ledger.next eng) db (served.filterMap (bankCall? overflow)) =
        some q.1.servers.db := by
  have hfails : ∀ a ∈ l, a.FailsIn (· = Ledger.noFails) := by
    intro a ha
    cases a with
    | gatewayDispatch fails => exact hstorage fails ha
    | _ => trivial
  obtain ⟨l', p, hp, hserved, n, ph, h⟩ := exists_serve_run_failsIn hrun hlen hrest hfails
  have hactions : p.2.map Prod.fst = l' := map_fst_log hp
  have hrequests : requests q.2 = l'.map Prod.fst ++ asked q.1.bridge.slot.text ph := by
    rw [h.requests_eq, ← hactions, List.map_map]
    rfl
  have hlength : l'.length = (responses q.2).length + (unread q.1.bridge.slot.text ph).length := by
    rw [← hactions, List.length_map, ← List.length_append, ← h.replies_eq, List.length_map]
  have hfits : ∀ x ∈ l', NoNul x.1 ∧ x.1.length ≤ 510 := by
    intro x hx
    have hmem : x.1 ∈ requests q.2 := by
      rw [hrequests]
      exact List.mem_append_left _ (List.mem_map_of_mem hx)
    exact ⟨noNul_of_mem_requests hrun hlen _ hmem, hlen _ (mem_of_mem_requests hrun hmem)⟩
  refine ⟨l'.map Prod.fst, ?_, ?_, ?_, ?_⟩
  · rw [hrequests]
    exact List.prefix_append _ _
  · rw [List.length_map, hlength]
    exact Nat.le_add_right _ _
  · rw [hrequests, List.length_append]
    cases ph <;> simp [asked]
  · rw [← h.servers_eq]
    exact ledger_run_of_serve hfits hserved hp

/-- The calls of requests without quotes have none. -/
theorem quoteFree_of_served {served : List Str}
    (hrun : runSteps (withLog (Assembly.step overflow eng)) (Assembly.start db, []) l = some q)
    (hquote : ∀ request, Action.clientWrite request ∈ l → QuoteFree request)
    (hserved : served <+: requests q.2) :
    ∀ c ∈ served.filterMap (bankCall? overflow), c.QuoteFree := by
  intro c hc
  obtain ⟨request, hmem, hcall⟩ := List.mem_filterMap.mp hc
  exact quoteFree_of_askedCall (hquote _ (mem_of_mem_requests hrun (hserved.subset hmem)))
    (bankCall?_eq_some.mp hcall)

/-- The database of a run, by the calls of the requests that are served. -/
theorem exists_schema_of_requests (hvol : Ledger.Volume k vol)
    (hinit : Ledger.preInit eng Ledger.noFails (some vol) = some db)
    (hrun : runSteps (withLog (Assembly.step overflow eng)) (Assembly.start db, []) l = some q)
    (hlen : WritesAtMost 510 l)
    (hrest : EveryStep (withLog (Assembly.step overflow eng)) (fun _ => ReadsAtRest)
      (Assembly.start db, []) l)
    (hstorage : ∀ fails, Action.gatewayDispatch fails ∈ l → fails = Ledger.noFails)
    (hquote : ∀ request, Action.clientWrite request ∈ l → QuoteFree request)
    (hids : ((vol.tables Ledger.transactions).getD Ledger.newLog).lastId Ledger.idCol +
      (requests q.2).length < 2 ^ 63) :
    ∃ served d, served <+: requests q.2 ∧ (responses q.2).length ≤ served.length ∧
      (requests q.2).length ≤ served.length + 1 ∧ q.1.servers.db = some d ∧
      Ledger.Schema k d
        (Ledger.accountsAfter eng k (served.filterMap (bankCall? overflow))
          ((vol.tables Ledger.accounts).getD Ledger.newAccounts))
        (Ledger.logAfter k (served.filterMap (bankCall? overflow))
          ((vol.tables Ledger.transactions).getD Ledger.newLog)) := by
  obtain ⟨served, hserved, hanswered, hall, hnext⟩ := exists_ledger_run hrun hlen hrest hstorage
  obtain ⟨d₀, hd₀, h₀⟩ := Ledger.preInit_spec hvol eng
  obtain rfl := Option.some.inj (hinit.symm.trans hd₀)
  have hcount : (served.filterMap (bankCall? overflow)).length ≤ (requests q.2).length :=
    (List.length_filterMap_le _ _).trans hserved.length_le
  obtain ⟨d, hd, h⟩ := Ledger.tables_run h₀ (quoteFree_of_served hrun hquote hserved) (by omega)
    hnext
  exact ⟨served, d, hserved, hanswered, hall, hd, h⟩

/-- **No transaction is lost, and none is made up.**  When the client reads only at rest and there
is storage, in every interleaving of the two loops the tables are what the calls of the requests
make of the tables there were: of all requests that the client has a response to, and of all
requests but at most the last. -/
theorem tables_of_requests (hvol : Ledger.Volume k vol)
    (hinit : Ledger.preInit eng Ledger.noFails (some vol) = some db)
    (hrun : runSteps (withLog (Assembly.step overflow eng)) (Assembly.start db, []) l = some q)
    (hlen : WritesAtMost 510 l)
    (hrest : EveryStep (withLog (Assembly.step overflow eng)) (fun _ => ReadsAtRest)
      (Assembly.start db, []) l)
    (hstorage : ∀ fails, Action.gatewayDispatch fails ∈ l → fails = Ledger.noFails)
    (hquote : ∀ request, Action.clientWrite request ∈ l → QuoteFree request)
    (hids : ((vol.tables Ledger.transactions).getD Ledger.newLog).lastId Ledger.idCol +
      (requests q.2).length < 2 ^ 63) :
    ∃ served d, served <+: requests q.2 ∧ (responses q.2).length ≤ served.length ∧
      (requests q.2).length ≤ served.length + 1 ∧ q.1.servers.db = some d ∧
      d.tables Ledger.accounts = some (Ledger.accountsAfter eng k
        (served.filterMap (bankCall? overflow))
        ((vol.tables Ledger.accounts).getD Ledger.newAccounts)) ∧
      d.tables Ledger.transactions = some (Ledger.logAfter k
        (served.filterMap (bankCall? overflow))
        ((vol.tables Ledger.transactions).getD Ledger.newLog)) := by
  obtain ⟨served, d, hserved, hanswered, hall, hd, h⟩ :=
    exists_schema_of_requests hvol hinit hrun hlen hrest hstorage hquote hids
  exact ⟨served, d, hserved, hanswered, hall, hd, h.accounts_eq, h.transactions_eq⟩

/-- A deposit, a transfer without authority, and the transfer of the client. -/
def trades : List (Str × (Nat → Nat → Bool)) :=
  [(bytes "tx 1001 Bank Alice DEPOSIT 500", Ledger.noFails),
    (bytes "tx 5 Alice Eve TRANSFER 500", Ledger.noFails), (Bridge.mockData, Ledger.noFails)]

theorem trades_spec : ∀ x ∈ trades, x.1.length ≤ 510 ∧ QuoteFree x.1 := by decide

theorem fails_of_trades {fails : Nat → Nat → Bool}
    (h : Action.gatewayDispatch fails ∈ trades.flatMap Assembly.round) :
    fails = Ledger.noFails := by
  simpa [trades, Assembly.round, Assembly.roundTrip] using h

/-- The run of the trades. -/
theorem exists_trades_run : ∃ q,
    runSteps (withLog (Assembly.step Int32.ofInt Ledger.plainEngine))
      (Assembly.start Ledger.firstUserDb, []) (trades.flatMap Assembly.round) = some q ∧
    requests q.2 = trades.map Prod.fst := by
  have hsome : (runSteps (withLog (Assembly.step Int32.ofInt Ledger.plainEngine))
      (Assembly.start Ledger.firstUserDb, []) (trades.flatMap Assembly.round)).any
        (fun q => decide (requests q.2 = trades.map Prod.fst)) = true := by
    decide +kernel
  obtain ⟨q, hrun, hrequests⟩ := (Option.any_eq_true _ _).mp hsome
  exact ⟨q, hrun, of_decide_eq_true hrequests⟩

theorem writesAtMost_trades : WritesAtMost 510 (trades.flatMap Assembly.round) := by
  intro request hmem
  obtain ⟨x, hx, rfl⟩ := exists_of_mem_rounds hmem
  exact (trades_spec x hx).1

theorem quoteFree_trades : ∀ request, Action.clientWrite request ∈ trades.flatMap Assembly.round →
    QuoteFree request := by
  intro request hmem
  obtain ⟨x, hx, rfl⟩ := exists_of_mem_rounds hmem
  exact (trades_spec x hx).2

theorem readsAtRest_trades : EveryStep (withLog (Assembly.step Int32.ofInt Ledger.plainEngine))
    (fun _ => ReadsAtRest) (Assembly.start Ledger.firstUserDb, [])
    (trades.flatMap Assembly.round) := by
  decide +kernel

theorem tables_of_requests_trades : ∃ q served d,
    runSteps (withLog (Assembly.step Int32.ofInt Ledger.plainEngine))
      (Assembly.start Ledger.firstUserDb, []) (trades.flatMap Assembly.round) = some q ∧
    served <+: requests q.2 ∧ (responses q.2).length ≤ served.length ∧
    (requests q.2).length ≤ served.length + 1 ∧ q.1.servers.db = some d ∧
    d.tables Ledger.accounts = some (Ledger.accountsAfter Ledger.plainEngine Ledger.userCol
      (served.filterMap (bankCall? Int32.ofInt))
      ((Ledger.userVolume.tables Ledger.accounts).getD Ledger.newAccounts)) ∧
    d.tables Ledger.transactions = some (Ledger.logAfter Ledger.userCol
      (served.filterMap (bankCall? Int32.ofInt))
      ((Ledger.userVolume.tables Ledger.transactions).getD Ledger.newLog)) := by
  obtain ⟨q, hrun, hrequests⟩ := exists_trades_run
  obtain ⟨served, d, h⟩ := tables_of_requests Ledger.volume_user rfl hrun writesAtMost_trades
    readsAtRest_trades (fun fails => fails_of_trades) quoteFree_trades
    (by rw [hrequests]; decide)
  exact ⟨q, served, d, hrun, h⟩

/-- **The balances are what the requests say.**  Where the key of the accounts is `user` and the
tables are empty at first, the accounts are those that the entries of the authorised requests are
replayed to, and hold what these deposit less what they withdraw. -/
theorem balances_of_requests (hvol : Ledger.EmptyVolume vol)
    (hinit : Ledger.preInit eng Ledger.noFails (some vol) = some db)
    (hrun : runSteps (withLog (Assembly.step overflow eng)) (Assembly.start db, []) l = some q)
    (hlen : WritesAtMost 510 l)
    (hrest : EveryStep (withLog (Assembly.step overflow eng)) (fun _ => ReadsAtRest)
      (Assembly.start db, []) l)
    (hstorage : ∀ fails, Action.gatewayDispatch fails ∈ l → fails = Ledger.noFails)
    (hquote : ∀ request, Action.clientWrite request ∈ l → QuoteFree request)
    (hids : ((vol.tables Ledger.transactions).getD Ledger.newLog).lastId Ledger.idCol +
      (requests q.2).length < 2 ^ 63)
    (hrange : Ledger.InRange (((requests q.2).filterMap (bankCall? overflow)).flatMap
      Ledger.Call.postings) Accounts.empty) :
    ∃ served d ta, served <+: requests q.2 ∧ (responses q.2).length ≤ served.length ∧
      (requests q.2).length ≤ served.length + 1 ∧ q.1.servers.db = some d ∧
      d.tables Ledger.accounts = some ta ∧
      (ta.rows.map fun r => (r Ledger.userCol, r Ledger.balanceCol)) =
        (Ledger.replay (Ledger.entries (served.filterMap (bankCall? overflow)))).entries.map
          (fun e => (.text e.1, .int e.2)) ∧
      (ta.rows.filterMap fun r => r.int? Ledger.balanceCol).sum =
        Ledger.sumOf "DEPOSIT" (Ledger.entries (served.filterMap (bankCall? overflow))) -
          Ledger.sumOf "WITHDRAWAL" (Ledger.entries (served.filterMap (bankCall? overflow))) := by
  obtain ⟨served, d, hserved, hanswered, hall, hd, h⟩ :=
    exists_schema_of_requests hvol.toVolume hinit hrun hlen hrest hstorage hquote hids
  have hempty : ((vol.tables Ledger.accounts).getD Ledger.newAccounts).rows = [] := by
    cases ht : vol.tables Ledger.accounts with
    | none => rfl
    | some t => exact hvol.accounts_rows t ht
  -- the postings of the requests that are served come first
  have hrange' : Ledger.InRange ((served.filterMap (bankCall? overflow)).flatMap
      Ledger.Call.postings) Accounts.empty := by
    obtain ⟨rest, hrest⟩ := hserved
    rw [← hrest, List.filterMap_append, List.flatMap_append] at hrange
    exact Ledger.inRange_left hrange
  have hrep := Ledger.represents_run eng hempty hrange'
  exact ⟨served, d, _, hserved, hanswered, hall, hd, h.accounts_eq, Ledger.map_isAccount hrep,
    (Ledger.sum_balances hrep).trans (Ledger.total_replay _)⟩

theorem balances_of_requests_trades : ∃ q served d ta,
    runSteps (withLog (Assembly.step Int32.ofInt Ledger.plainEngine))
      (Assembly.start Ledger.firstUserDb, []) (trades.flatMap Assembly.round) = some q ∧
    served <+: requests q.2 ∧ (responses q.2).length ≤ served.length ∧
    (requests q.2).length ≤ served.length + 1 ∧ q.1.servers.db = some d ∧
    d.tables Ledger.accounts = some ta ∧
    (ta.rows.map fun r => (r Ledger.userCol, r Ledger.balanceCol)) =
      (Ledger.replay (Ledger.entries (served.filterMap (bankCall? Int32.ofInt)))).entries.map
        (fun e => (.text e.1, .int e.2)) ∧
    (ta.rows.filterMap fun r => r.int? Ledger.balanceCol).sum =
      Ledger.sumOf "DEPOSIT" (Ledger.entries (served.filterMap (bankCall? Int32.ofInt))) -
        Ledger.sumOf "WITHDRAWAL" (Ledger.entries (served.filterMap (bankCall? Int32.ofInt))) := by
  obtain ⟨q, hrun, hrequests⟩ := exists_trades_run
  obtain ⟨served, d, ta, h⟩ := balances_of_requests Ledger.emptyVolume_user rfl hrun
    writesAtMost_trades readsAtRest_trades (fun fails => fails_of_trades) quoteFree_trades
    (by rw [hrequests]; decide) (by rw [hrequests]; decide +kernel)
  exact ⟨q, served, d, ta, hrun, h⟩

end Assembly

end BankSel4.System
