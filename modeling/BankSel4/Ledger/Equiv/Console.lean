import BankSel4.Ledger.Console
import BankSel4.Ledger.Equiv.Blocked

/-!
# The console shows the transactions

A call that prints does what the call does (`bankExecuteTransaction_fst`).  The dump of a call is
made behind its record, which has the largest id, so the entries on the console are the records in
the order of their ids, and the accounts below them are those of the database: `console_run`.
-/

namespace BankSel4.Ledger

open Sql

/-! ### Printing -/

theorem write_eq (console data : Str) : write console data = console ++ data := by
  induction data generalizing console with
  | nil => exact (List.append_nil console).symm
  | cons c data ih => exact (ih (console ++ [c])).trans (List.append_assoc console [c] data)

namespace PrintM

variable {α β : Type} {x : PrintM α} {f : α → PrintM β} {p q : Printing}

theorem bind_of_ok {a : α} (h : x p = (.ok a, q)) : (x >>= f) p = f a q := by
  simp only [bind, h]

theorem bind_of_error {e : Fault} (h : x p = (.error e, q)) : (x >>= f) p = (.error e, q) := by
  simp only [bind, h]

theorem bind_eq_ok {b : β} :
    (x >>= f) p = (.ok b, q) ↔ ∃ a p', x p = (.ok a, p') ∧ f a p' = (.ok b, q) := by
  constructor
  · intro h
    rcases hx : x p with ⟨e | a, p'⟩
    · rw [bind_of_error hx] at h
      cases h
    · exact ⟨a, p', rfl, (bind_of_ok hx).symm.trans h⟩
  · rintro ⟨a, p', hx, hf⟩
    rw [bind_of_ok hx, hf]

/-- But for the console, `x` is `y`. -/
def Erases (x : PrintM α) (y : CallM α) : Prop := ∀ p, ((x p).1, (x p).2.session) = y p.session

theorem erases_silent (y : CallM α) : Erases y.silent y := fun _ => rfl

theorem erases_pure (a : α) : Erases (pure a) (pure a) := fun _ => rfl

theorem Erases.bind {y : CallM α} {g : α → CallM β} (hx : Erases x y)
    (hf : ∀ a, Erases (f a) (g a)) : Erases (x >>= f) (y >>= g) := by
  intro p
  have hy := (hx p).symm
  rcases hp : x p with ⟨e | a, p'⟩
  · rw [hp] at hy
    rw [bind_of_error hp, Ledger.bind_of_error hy]
  · rw [hp] at hy
    rw [bind_of_ok hp, Ledger.bind_of_ok hy, hf a p']

/-- What is printed does not matter. -/
theorem Erases.printf {y : CallM β} {text : Str} {x : PrintM β} (h : Erases x y) :
    Erases (Ledger.printf text >>= fun _ => x) y := fun p => h ⟨p.session, write p.console text⟩

theorem silent_eq_ok {y : CallM α} {a : α} :
    y.silent p = (.ok a, q) ↔ y p.session = (.ok a, q.session) ∧ q.console = p.console := by
  constructor
  · intro h
    obtain ⟨ha, rfl⟩ := Prod.mk.inj h
    exact ⟨Prod.ext ha rfl, rfl⟩
  · rintro ⟨h, hconsole⟩
    rw [CallM.silent, h, ← hconsole]

theorem printf_eq_ok {text : Str} {u : Unit} :
    Ledger.printf text p = (.ok u, q) ↔ q = ⟨p.session, p.console ++ text⟩ := by
  rw [← write_eq]
  exact ⟨fun h => (Prod.mk.inj h).2.symm, fun h => h ▸ rfl⟩

end PrintM

open PrintM

section Erasure

variable (eng : Engine) (v : Viewer) (c : Call)

theorem erases_execView (text : Str) :
    Erases (Console.execView eng v text) (exec eng noFails text) := fun _ => rfl

theorem erases_dumpLiveContents :
    Erases (Console.dumpLiveContents eng v c) (dumpLiveContents eng noFails c) :=
  ((erases_execView eng v _).bind fun _ =>
    ((erases_execView eng v _).bind fun _ => (erases_pure _).printf).printf).printf

theorem erases_executeTransaction :
    Erases (Console.executeTransaction eng v c) (executeTransaction eng noFails c) := by
  unfold Console.executeTransaction executeTransaction
  split_ifs with htoken
  · refine ((erases_silent _).bind fun sql => ?_).printf
    exact (erases_silent _).bind fun _ => erases_dumpLiveContents eng v c
  · refine (erases_silent _).bind fun sql => (erases_silent _).bind fun _ => ?_
    refine (erases_silent _).bind fun sql => (erases_silent _).bind fun rc => ?_
    cases rc with
    | false => exact erases_pure _
    | true =>
      refine (erases_silent _).bind fun sql => ?_
      exact (erases_silent _).bind fun _ => erases_dumpLiveContents eng v c

/-- A call that prints does what the call does. -/
theorem bankExecuteTransaction_fst (db : Option Db) (out : Str) :
    (Console.bankExecuteTransaction eng v db out c).1 = bankExecuteTransaction eng noFails db c := by
  cases db with
  | none => rfl
  | some db =>
    have herase := erases_executeTransaction eng v c ⟨⟨db, []⟩, out⟩
    rw [bankExecuteTransaction, ← herase]
    rfl

theorem next_fst (s : Option Db × Str) :
    (Console.next eng v s c).map Prod.fst = next eng s.1 c := by
  rw [Console.next, next, step, bankExecuteTransaction_fst, Option.map_map, Option.map_map]
  rfl

end Erasure

/-! ### Records and rows -/

/-- The record of a call, with its id. -/
def Call.recordAt (c : Call) (i : Int) : Row := Function.update (recordRow c c.status) idCol (.int i)

/-- The transactions with the record of a call. -/
def logged (tl : Table) (c : Call) : Table :=
  { tl with rows := tl.rows ++ [c.recordAt (tl.lastId idCol + 1)], seq := tl.lastId idCol + 1 }

theorem record_eq_logged {tl : Table} (h : LogTable tl) (hid : tl.lastId idCol < 2 ^ 63 - 1)
    (c : Call) : record tl false c c.status = (logged tl c, true) :=
  record_of_nextId h (if_pos hid) c c.status

theorem lastId_logged_le (tl : Table) (c : Call) :
    (logged tl c).lastId idCol ≤ tl.lastId idCol + 1 :=
  lastId_append (Int.le_add_one le_rfl) _

theorem latest_concat (col : Name) (rows : List Row) (r : Row) :
    latest col (rows ++ [r]) = match latest col rows with
      | none => some r
      | some max => some (if keyLt (max.int? col) (r.int? col) then r else max) := by
  rw [latest, List.foldl_append]
  rfl

theorem mem_of_latest {col : Name} {rows : List Row} {r : Row} (h : latest col rows = some r) :
    r ∈ rows := by
  induction rows using List.reverseRecOn generalizing r with
  | nil => cases h
  | append_singleton rows x ih =>
    rw [latest_concat] at h
    rw [List.mem_append, List.mem_singleton]
    cases hmax : latest col rows with
    | none =>
      rw [hmax] at h
      exact Or.inr (Option.some.inj h).symm
    | some max =>
      rw [hmax] at h
      obtain rfl := Option.some.inj h
      split_ifs
      · exact Or.inr rfl
      · exact Or.inl (ih hmax)

/-- The record of a call is the latest. -/
theorem latest_logged (tl : Table) (c : Call) :
    latest idCol (logged tl c).rows = some (c.recordAt (tl.lastId idCol + 1)) := by
  have hid : Row.int? (c.recordAt (tl.lastId idCol + 1)) idCol = some (tl.lastId idCol + 1) := by
    rw [Row.int?, Call.recordAt, Function.update_self]
  rw [logged, latest_concat, hid]
  cases hmax : latest idCol tl.rows with
  | none => rfl
  | some max =>
    have hlt : keyLt (max.int? idCol) (some (tl.lastId idCol + 1)) = true := by
      cases hi : max idCol with
      | int i =>
        have hle := le_lastId (mem_of_latest hmax) hi
        rw [Row.int?, hi]
        exact decide_eq_true (by omega)
      | null | text _ | other _ =>
        rw [Row.int?, hi]
        rfl
    dsimp only
    rw [hlt, if_pos rfl]

/-- The columns of the dump of the latest record. -/
def logColumns : List Name := ["id", "type", "src", "dest", "amount", "status"].map bytes

/-- The columns of the dump of the accounts. -/
def accountColumns : List Name := [userCol, balanceCol]

section Rows

variable {k : Name} {db : Db} {ta tl : Table}

theorem rowsText_of_rows {text : Str} {cols : List Name} {table : Name} {order : Option Name}
    {rows : List Row} (hplain : db.extra = [])
    (hst : statements names text = some [.select cols table order])
    (hrows : selectRows db cols table order = some rows) (v : Viewer) :
    v.rowsText db text = rows.flatMap (v.rowLine cols) := by
  rw [statements] at hst
  unfold Viewer.rowsText
  simp only [hplain, hst, hrows]

theorem rowsText_dumpLog (h : Schema k db ta tl) (v : Viewer) :
    v.rowsText db dumpLogText = (latest idCol tl.rows).toList.flatMap (v.rowLine logColumns) := by
  obtain ⟨hkey, hid, htype, hsrc, hdest, hamount, hstatus⟩ := h.logTable
  have hsel : execSelect db logColumns transactions (some idCol) = true := by
    unfold idCol at hid
    simp [execSelect, logColumns, idCol, h.transactions_eq, hid, htype, hsrc, hdest, hamount,
      hstatus]
  have hrows : selectRows db logColumns transactions (some idCol) =
      some (latest idCol tl.rows).toList := by
    rw [selectRows, if_pos hsel, h.transactions_eq, Option.bind_some]
    exact if_pos hkey
  exact rowsText_of_rows h.extra_eq statements_dumpLog hrows v

/-- Where the accounts have no column `user`, none is shown. -/
theorem rowsText_dumpAccounts (h : Schema k db ta tl) (v : Viewer) :
    v.rowsText db dumpAccountsText =
      (if k = userCol then ta.rows else []).flatMap (v.rowLine accountColumns) := by
  have hrows : selectRows db accountColumns accounts none =
      some (if k = userCol then ta.rows else []) := by
    rw [selectRows]
    by_cases hk : k = userCol
    · have hsel : execSelect db accountColumns accounts none = true := by
        simp [execSelect, accountColumns, h.accounts_eq, ← hk, h.accountsTable.key_text,
          h.accountsTable.balance]
      rw [if_pos hsel, if_pos hk, h.accounts_eq]
      rfl
    · have hsel : ¬ execSelect db accountColumns accounts none = true := by
        simp [execSelect, accountColumns, h.accounts_eq, h.accountsTable.user_missing hk]
      rw [if_neg hsel, if_neg hk]
  exact rowsText_of_rows h.extra_eq statements_dumpAccounts hrows v

end Rows

/-! ### Calls -/

/-- What a dump prints. -/
def dumpText (v : Viewer) (entries accounts : List Row) : Str :=
  recordHeader ++ entries.flatMap (v.rowLine logColumns) ++ accountsHeader ++
    accounts.flatMap (v.rowLine accountColumns) ++ ruler

section Calls

variable {eng : Engine} {v : Viewer} {k : Name} {ta tl : Table} {c : Call} {p q : Printing}
  {text : Str} {b : Bool}

theorem exec_eq_ok {stmts : List Stmt} {r : Db × Bool} (hplain : p.session.db.extra = [])
    (hst : statements names text = some stmts)
    (hr : runStmts eng (noFails p.session.log.length) text p.session.db 0 stmts = r)
    (h : Console.exec eng text p = (.ok b, q)) :
    b = r.2 ∧ q.session.db = r.1 ∧ q.console = p.console := by
  obtain ⟨hexec, hconsole⟩ := silent_eq_ok.mp h
  rw [exec_of_statements hplain hst hr] at hexec
  obtain ⟨hb, hsession⟩ := Prod.mk.inj hexec
  exact ⟨(Except.ok.inj hb).symm, by rw [← hsession], hconsole⟩

/-- The postings of a text, on tables whose key is `user`. -/
theorem exec_postings (h : Schema userCol p.session.db ta tl) {ps : List Posting}
    (hps : ∀ x ∈ ps, x.Fits) (hst : statements names text = some (ps.map Posting.stmt))
    (hexec : Console.exec eng text p = (.ok b, q)) :
    b = true ∧ Schema userCol q.session.db (ps.foldl (fun t x => x.run eng t) ta) tl ∧
      q.console = p.console := by
  have hrun := runStmts_postings eng (noFails p.session.log.length) text h hps 0
  have hshape := runPostings_cols_key eng (noFails p.session.log.length) 0 ps ta
  rw [runPostings_noFails] at hrun hshape
  obtain ⟨hb, hdb, hconsole⟩ := exec_eq_ok h.extra_eq hst hrun hexec
  exact ⟨hb, hdb ▸ h.setAccounts hshape.1 hshape.2, hconsole⟩

theorem exec_postings_of_ne (h : Schema k p.session.db ta tl) (hk : k ≠ userCol)
    {ps : List Posting} (hne : ps ≠ []) (hst : statements names text = some (ps.map Posting.stmt))
    (hexec : Console.exec eng text p = (.ok b, q)) :
    b = false ∧ q.session.db = p.session.db ∧ q.console = p.console := by
  obtain ⟨x, ps, rfl⟩ := List.exists_cons_of_ne_nil hne
  exact exec_eq_ok h.extra_eq hst (runStmts_postings_of_ne h hk x ps 0) hexec

theorem exec_record (h : Schema k p.session.db ta tl) (hid : tl.lastId idCol < 2 ^ 63 - 1)
    (hst : statements names text = some [recordStmt c c.status])
    (hexec : Console.exec eng text p = (.ok b, q)) :
    Schema k q.session.db ta (logged tl c) ∧ q.console = p.console := by
  have hrun : runStmts eng (noFails p.session.log.length) text p.session.db 0 _ = _ :=
    runStmts_record h c c.status
  rw [show noFails p.session.log.length 0 = false from rfl, record_eq_logged h.logTable hid] at hrun
  obtain ⟨-, hdb, hconsole⟩ := exec_eq_ok h.extra_eq hst hrun hexec
  exact ⟨hdb ▸ h.setTransactions rfl rfl, hconsole⟩

theorem execView_eq_ok {stmts : List Stmt} {ok : Bool} (hplain : p.session.db.extra = [])
    (hst : statements names text = some stmts)
    (hr : runStmts eng (noFails p.session.log.length) text p.session.db 0 stmts =
      (p.session.db, ok))
    (h : Console.execView eng v text p = (.ok b, q)) :
    q.session.db = p.session.db ∧ q.console = p.console ++ v.rowsText p.session.db text := by
  obtain ⟨-, hdb, hconsole⟩ := exec_eq_ok
    (p := ⟨p.session, write p.console (v.rowsText p.session.db text)⟩) hplain hst hr h
  exact ⟨hdb, hconsole.trans (write_eq ..)⟩

theorem dumpLiveContents_eq_ok (h : Schema k p.session.db ta tl) {rc : Int32}
    (hrun : Console.dumpLiveContents eng v c p = (.ok rc, q)) :
    q.session.db = p.session.db ∧ q.console = p.console ++
      dumpText v (latest idCol tl.rows).toList (if k = userCol then ta.rows else []) := by
  unfold Console.dumpLiveContents at hrun
  obtain ⟨_, p₁, hprint₁, hrun₁⟩ := PrintM.bind_eq_ok.mp hrun
  obtain ⟨_, p₂, hlog, hrun₂⟩ := PrintM.bind_eq_ok.mp hrun₁
  obtain ⟨_, p₃, hprint₃, hrun₃⟩ := PrintM.bind_eq_ok.mp hrun₂
  obtain ⟨_, p₄, haccounts, hrun₄⟩ := PrintM.bind_eq_ok.mp hrun₃
  obtain ⟨_, p₅, hprint₅, hrun₅⟩ := PrintM.bind_eq_ok.mp hrun₄
  obtain rfl := printf_eq_ok.mp hprint₁
  obtain ⟨hdb₂, hconsole₂⟩ := execView_eq_ok (p := ⟨p.session, p.console ++ recordHeader⟩)
    h.extra_eq statements_dumpLog (runStmts_dumpLog h) hlog
  obtain rfl := printf_eq_ok.mp hprint₃
  have h₂ : Schema k p₂.session.db ta tl := hdb₂.symm ▸ h
  obtain ⟨hdb₄, hconsole₄⟩ := execView_eq_ok (p := ⟨p₂.session, p₂.console ++ accountsHeader⟩)
    h₂.extra_eq statements_dumpAccounts (runStmts_dumpAccounts h₂) haccounts
  obtain rfl := printf_eq_ok.mp hprint₅
  obtain rfl := (Prod.mk.inj hrun₅).2
  refine ⟨hdb₄.trans hdb₂, ?_⟩
  dsimp only at hconsole₂ hconsole₄ ⊢
  rw [hconsole₄, hconsole₂, rowsText_dumpLog h, rowsText_dumpAccounts h₂]
  simp only [dumpText, List.append_assoc]

end Calls

/-- The call is shown: it is blocked, or the accounts have a column `user`. -/
def Call.Shown (k : Name) (c : Call) : Prop := c.token < 1000 ∨ k = userCol

instance (k : Name) (c : Call) : Decidable (c.Shown k) := inferInstanceAs (Decidable (_ ∨ _))

/-- A dump: the call it ends, the id of its record, and the accounts it shows. -/
structure Dump where
  call : Call
  id : Int
  accounts : List Row

/-- The latest record, which is that of the call. -/
def Dump.entry (x : Dump) : Row := x.call.recordAt x.id

/-- What the call of a dump prints. -/
def Dump.text (v : Viewer) (x : Dump) : Str :=
  (if x.call.token < 1000 then alertText else []) ++ dumpText v [x.entry] x.accounts

section Step

variable {eng : Engine} {v : Viewer} {k : Name} {db : Db} {ta tl : Table} {c : Call} {out : Str}
  {p q : Printing} {rc : Int32}

theorem Console.exists_of_next {s' : Option Db × Str}
    (hs : Console.next eng v (some db, out) c = some s') :
    ∃ rc q, Console.executeTransaction eng v c ⟨⟨db, []⟩, out⟩ = (.ok rc, q) ∧
      s' = (some q.session.db, q.console) := by
  unfold Console.next Console.bankExecuteTransaction at hs
  dsimp only at hs
  rcases hrun : Console.executeTransaction eng v c ⟨⟨db, []⟩, out⟩ with ⟨e | rc, q⟩
  · rw [hrun] at hs
    cases hs
  · rw [hrun] at hs
    exact ⟨rc, q, rfl, (Option.some.inj hs).symm⟩

/-- The call is shown, and `out` is what it prints. -/
def Shows (v : Viewer) (k : Name) (c : Call) (tl : Table) (out : Str) (ta' tl' : Table) : Prop :=
  ∃ x : Dump, x.call = c ∧ out = x.text v ∧ tl'.rows = tl.rows ++ [x.entry] ∧
    x.accounts = if k = userCol then ta'.rows else []

/-- The dump behind the record of a call. -/
theorem shows_of_dump (h : Schema k p.session.db ta (logged tl c))
    (hrun : Console.dumpLiveContents eng v c p = (.ok rc, q)) :
    Schema k q.session.db ta (logged tl c) ∧ ∃ text, q.console = p.console ++ text ∧
      Shows v k c tl ((if c.token < 1000 then alertText else []) ++ text) ta (logged tl c) := by
  obtain ⟨hdb, hconsole⟩ := dumpLiveContents_eq_ok h hrun
  rw [latest_logged] at hconsole
  exact ⟨hdb.symm ▸ h, _, hconsole, ⟨c, tl.lastId idCol + 1, _⟩, rfl, rfl, rfl, rfl⟩

theorem shows_blocked (h : Schema k p.session.db ta tl) (hc : c.QuoteFree)
    (hid : tl.lastId idCol < 2 ^ 63 - 1) (htoken : c.token < 1000)
    (hrun : Console.executeTransaction eng v c p = (.ok rc, q)) :
    Schema k q.session.db ta (logged tl c) ∧
      ∃ text, q.console = p.console ++ text ∧ Shows v k c tl text ta (logged tl c) := by
  rw [Console.executeTransaction, if_pos htoken] at hrun
  obtain ⟨_, p₁, hprint, hrun₁⟩ := PrintM.bind_eq_ok.mp hrun
  obtain rfl := printf_eq_ok.mp hprint
  obtain ⟨sql, p₂, hsql, hrun₂⟩ := PrintM.bind_eq_ok.mp hrun₁
  obtain ⟨hsql, hconsole₂⟩ := silent_eq_ok.mp hsql
  obtain ⟨htext, hsession⟩ := sprintfSql_eq_ok.mp hsql
  obtain ⟨_, p₃, hexec, hrun₃⟩ := PrintM.bind_eq_ok.mp hrun₂
  have hst := statements_blocked hc htext
  rw [show blockedStatus = c.status from (if_pos htoken).symm] at hst
  have h₂ : Schema k p₂.session.db ta tl := hsession ▸ h
  obtain ⟨h₃, hconsole₃⟩ := exec_record h₂ hid hst hexec
  obtain ⟨h₄, text, hconsole, hshows⟩ := shows_of_dump h₃ hrun₃
  rw [if_pos htoken] at hshows
  refine ⟨h₄, _, ?_, hshows⟩
  rw [hconsole, hconsole₃, hconsole₂, List.append_assoc]

/-- The texts of an authorised call: the accounts, the update, and the record if that succeeds. -/
theorem executeTransaction_eq_ok (hc : c.QuoteFree) (htoken : ¬ c.token < 1000)
    (hrun : Console.executeTransaction eng v c p = (.ok rc, q)) :
    ∃ created updated b₁ b₂ p₁ p₂, statements names created =
        some ((creations c).map Posting.stmt) ∧
      statements names updated = some ((updates c).map Posting.stmt) ∧
      Console.exec eng created p = (.ok b₁, p₁) ∧ Console.exec eng updated p₁ = (.ok b₂, p₂) ∧
      (b₂ = false ∧ q = p₂ ∨ b₂ = true ∧ ∃ approved b₃ p₃,
        statements names approved = some [recordStmt c c.status] ∧
        Console.exec eng approved p₂ = (.ok b₃, p₃) ∧
        Console.dumpLiveContents eng v c p₃ = (.ok rc, q)) := by
  rw [Console.executeTransaction, if_neg htoken] at hrun
  obtain ⟨created, t₀, hcreated, hrun₁⟩ := PrintM.bind_eq_ok.mp hrun
  obtain ⟨hcreated, hconsole₀⟩ := silent_eq_ok.mp hcreated
  obtain ⟨htext₁, hsession₀⟩ := sprintfSql_eq_ok.mp hcreated
  obtain rfl : t₀ = p := Printing.ext hsession₀ hconsole₀
  obtain ⟨b₁, p₁, hexec₁, hrun₂⟩ := PrintM.bind_eq_ok.mp hrun₁
  obtain ⟨updated, t₁, hupdated, hrun₃⟩ := PrintM.bind_eq_ok.mp hrun₂
  obtain ⟨hupdated, hconsole₁⟩ := silent_eq_ok.mp hupdated
  have hst := statements_create hc htext₁
  obtain ⟨hsession₁, hst'⟩ := statements_update hc hst hupdated
  obtain rfl : t₁ = p₁ := Printing.ext hsession₁ hconsole₁
  obtain ⟨b₂, p₂, hexec₂, hrun₄⟩ := PrintM.bind_eq_ok.mp hrun₃
  refine ⟨created, updated, b₁, b₂, t₁, p₂, hst, hst', hexec₁, hexec₂, ?_⟩
  cases b₂ with
  | false => exact Or.inl ⟨rfl, (Prod.mk.inj hrun₄).2.symm⟩
  | true =>
    rw [if_pos rfl] at hrun₄
    obtain ⟨approved, t₃, happroved, hrun₅⟩ := PrintM.bind_eq_ok.mp hrun₄
    obtain ⟨happroved, hconsole₃⟩ := silent_eq_ok.mp happroved
    obtain ⟨htext₃, hsession₃⟩ := sprintfSql_eq_ok.mp happroved
    obtain rfl : t₃ = p₂ := Printing.ext hsession₃ hconsole₃
    obtain ⟨b₃, p₃, hexec₃, hdump⟩ := PrintM.bind_eq_ok.mp hrun₅
    have hst₃ := statements_approved hc htext₃
    rw [show approvedStatus = c.status from (if_neg htoken).symm] at hst₃
    exact Or.inr ⟨rfl, approved, b₃, p₃, hst₃, hexec₃, hdump⟩

theorem shows_authorised (h : Schema userCol p.session.db ta tl) (hc : c.QuoteFree)
    (hid : tl.lastId idCol < 2 ^ 63 - 1) (htoken : ¬ c.token < 1000)
    (hrun : Console.executeTransaction eng v c p = (.ok rc, q)) :
    ∃ ta', Schema userCol q.session.db ta' (logged tl c) ∧
      ∃ text, q.console = p.console ++ text ∧ Shows v userCol c tl text ta' (logged tl c) := by
  obtain ⟨created, updated, b₁, b₂, p₁, p₂, hst₁, hst₂, hexec₁, hexec₂, hrest⟩ :=
    executeTransaction_eq_ok hc htoken hrun
  obtain ⟨-, h₁, hconsole₁⟩ := exec_postings h (fits_creations c) hst₁ hexec₁
  obtain ⟨hb₂, h₂, hconsole₂⟩ := exec_postings h₁ (fits_updates c) hst₂ hexec₂
  obtain ⟨hfalse, -⟩ | ⟨-, approved, b₃, p₃, hst₃, hexec₃, hdump⟩ := hrest
  · rw [hb₂] at hfalse
    cases hfalse
  · obtain ⟨h₃, hconsole₃⟩ := exec_record h₂ hid hst₃ hexec₃
    obtain ⟨h₄, text, hconsole, hshows⟩ := shows_of_dump h₃ hdump
    rw [if_neg htoken, List.nil_append] at hshows
    refine ⟨_, h₄, text, ?_, hshows⟩
    rw [hconsole, hconsole₃, hconsole₂, hconsole₁]

/-- Where the accounts have no column `user`, nothing is printed. -/
theorem authorised_of_ne (h : Schema k p.session.db ta tl) (hk : k ≠ userCol) (hc : c.QuoteFree)
    (htoken : ¬ c.token < 1000) (hrun : Console.executeTransaction eng v c p = (.ok rc, q)) :
    q.session.db = p.session.db ∧ q.console = p.console := by
  obtain ⟨created, updated, b₁, b₂, p₁, p₂, hst₁, hst₂, hexec₁, hexec₂, hrest⟩ :=
    executeTransaction_eq_ok hc htoken hrun
  obtain ⟨y, ys, hys⟩ := exists_updates_eq_cons c
  obtain ⟨-, hdb₁, hconsole₁⟩ := exec_postings_of_ne h hk (by simp [creations]) hst₁ hexec₁
  have h₁ : Schema k p₁.session.db ta tl := hdb₁.symm ▸ h
  obtain ⟨hb₂, hdb₂, hconsole₂⟩ := exec_postings_of_ne h₁ hk (by simp [hys]) hst₂ hexec₂
  obtain ⟨-, rfl⟩ | ⟨htrue, -⟩ := hrest
  · exact ⟨hdb₂.trans hdb₁, hconsole₂.trans hconsole₁⟩
  · rw [hb₂] at htrue
    cases htrue

/-- **A call** that is shown makes its record and prints its dump; another changes and prints
nothing. -/
theorem console_step (h : Schema k db ta tl) (hc : c.QuoteFree)
    (hid : tl.lastId idCol < 2 ^ 63 - 1) {s' : Option Db × Str}
    (hs : Console.next eng v (some db, out) c = some s') :
    ∃ d ta' tl', s'.1 = some d ∧ Schema k d ta' tl' ∧ tl'.lastId idCol ≤ tl.lastId idCol + 1 ∧
      if c.Shown k then ∃ text, s'.2 = out ++ text ∧ Shows v k c tl text ta' tl'
      else s'.2 = out ∧ tl' = tl ∧ ta' = ta := by
  have hle := lastId_logged_le tl c
  obtain ⟨rc, q, hrun, rfl⟩ := Console.exists_of_next hs
  by_cases htoken : c.token < 1000
  · obtain ⟨h', text, hconsole, hshows⟩ := shows_blocked h hc hid htoken hrun
    refine ⟨_, _, _, rfl, h', hle, ?_⟩
    rw [if_pos (show c.Shown k from Or.inl htoken)]
    exact ⟨text, hconsole, hshows⟩
  · by_cases hk : k = userCol
    · subst hk
      obtain ⟨ta', h', text, hconsole, hshows⟩ := shows_authorised h hc hid htoken hrun
      refine ⟨_, _, _, rfl, h', hle, ?_⟩
      rw [if_pos (show c.Shown userCol from Or.inr rfl)]
      exact ⟨text, hconsole, hshows⟩
    · obtain ⟨hdb, hconsole⟩ := authorised_of_ne h hk hc htoken hrun
      refine ⟨_, ta, tl, rfl, hdb.symm ▸ h, by omega, ?_⟩
      rw [if_neg (show ¬ c.Shown k from not_or.mpr ⟨htoken, hk⟩)]
      exact ⟨hconsole, rfl, rfl⟩

end Step

/-! ### Runs -/

/-- The console shows the database: its dumps are those of the calls that are shown, their entries
the transactions made so far, and the accounts of the last one those there are. -/
structure Trail (v : Viewer) (k : Name) (old : List Row) (calls : List Call) (out : Str)
    (ta tl : Table) (dumps : List Dump) : Prop where
  console_eq : out = dumps.flatMap (Dump.text v)
  calls_eq : dumps.map Dump.call = calls.filter fun c => c.Shown k
  rows_eq : tl.rows = old ++ dumps.map Dump.entry
  last_eq : ∀ x ∈ dumps.getLast?, x.accounts = if k = userCol then ta.rows else []
  hidden : k ≠ userCol → ∀ x ∈ dumps, x.accounts = []

/-- A call that is shown adds its dump. -/
theorem Trail.snoc {v : Viewer} {k : Name} {old : List Row} {calls : List Call} {out text : Str}
    {ta tl ta' tl' : Table} {dumps : List Dump} (h : Trail v k old calls out ta tl dumps) {c : Call}
    (hshown : c.Shown k) (hshows : Shows v k c tl text ta' tl') :
    ∃ dumps', Trail v k old (calls ++ [c]) (out ++ text) ta' tl' dumps' := by
  obtain ⟨x, hcall, rfl, hrows, haccounts⟩ := hshows
  refine ⟨dumps ++ [x], ?_, ?_, ?_, ?_, ?_⟩
  · rw [h.console_eq, List.flatMap_append, List.flatMap_singleton]
  · rw [List.map_append, h.calls_eq, List.filter_append,
      List.filter_cons_of_pos (by simpa using hshown), List.filter_nil, List.map_singleton, hcall]
  · rw [hrows, h.rows_eq, List.map_append, List.append_assoc, List.map_singleton]
  · rw [List.getLast?_concat]
    rintro y hy
    obtain rfl := Option.some.inj hy
    exact haccounts
  · intro hk
    refine List.forall_mem_append.mpr ⟨h.hidden hk, ?_⟩
    rw [List.forall_mem_singleton, haccounts, if_neg hk]

/-- A call that is not shown adds nothing. -/
theorem Trail.skip {v : Viewer} {k : Name} {old : List Row} {calls : List Call} {out : Str}
    {ta tl : Table} {dumps : List Dump} (h : Trail v k old calls out ta tl dumps) {c : Call}
    (hshown : ¬ c.Shown k) : Trail v k old (calls ++ [c]) out ta tl dumps := by
  refine ⟨h.console_eq, ?_, h.rows_eq, h.last_eq, h.hidden⟩
  rw [h.calls_eq, List.filter_append, List.filter_cons_of_neg (by simpa using hshown),
    List.filter_nil, List.append_nil]

section Run

variable {eng : Engine} {v : Viewer} {k : Name} {vol : Db} {db₀ db : Option Db} {calls : List Call}
  {out : Str}

theorem trail_run (hvol : Volume k vol) (hinit : preInit eng noFails (some vol) = some db₀)
    (hcalls : ∀ c ∈ calls, c.QuoteFree)
    (hids : ((vol.tables transactions).getD newLog).lastId idCol + calls.length < 2 ^ 63)
    (hrun : runSteps (Console.next eng v) (db₀, []) calls = some (db, out)) :
    runSteps (next eng) db₀ calls = some db ∧ ∃ d ta tl dumps, db = some d ∧ Schema k d ta tl ∧
      tl.lastId idCol ≤ ((vol.tables transactions).getD newLog).lastId idCol + calls.length ∧
      Trail v k ((vol.tables transactions).getD newLog).rows calls out ta tl dumps := by
  obtain ⟨d₀, hd₀, h₀⟩ := preInit_spec hvol eng
  obtain rfl := Option.some.inj (hinit.symm.trans hd₀)
  refine runSteps_invariant
    (P := fun pre _ c => c.QuoteFree ∧
      ((vol.tables transactions).getD newLog).lastId idCol + (pre.length + 1) < 2 ^ 63)
    (I := fun pre s => runSteps (next eng) (some d₀) pre = some s.1 ∧ ∃ d ta tl dumps,
      s.1 = some d ∧ Schema k d ta tl ∧ tl.lastId idCol ≤
        ((vol.tables transactions).getD newLog).lastId idCol + pre.length ∧
      Trail v k ((vol.tables transactions).getD newLog).rows pre s.2 ta tl dumps)
    ⟨rfl, d₀, _, _, [], rfl, h₀, by simp, rfl, rfl, (List.append_nil _).symm, by simp, by simp⟩
    ?_ ?_ hrun
  · rintro pre ⟨-, out⟩ c s' - ⟨hnext, d, ta, tl, dumps, rfl, hschema, hid, htrail⟩ ⟨hc, hlt⟩ hs
    obtain ⟨d', ta', tl', hd', hschema', hid', hshows⟩ := console_step hschema hc (by omega) hs
    have hfst := next_fst eng v c (some d, out)
    rw [hs] at hfst
    refine ⟨runSteps_snoc_eq_some.mpr ⟨_, hnext, hfst.symm⟩, d', ta', tl', ?_⟩
    have hle : tl'.lastId idCol ≤ ((vol.tables transactions).getD newLog).lastId idCol +
        ((pre ++ [c]).length : Nat) := by
      rw [List.length_append, List.length_singleton]
      push_cast
      omega
    by_cases hshown : c.Shown k
    · rw [if_pos hshown] at hshows
      obtain ⟨text, hout, hshows⟩ := hshows
      obtain ⟨dumps', htrail'⟩ := htrail.snoc hshown hshows
      exact ⟨dumps', hd', hschema', hle, hout ▸ htrail'⟩
    · rw [if_neg hshown] at hshows
      obtain ⟨hout, rfl, rfl⟩ := hshows
      exact ⟨dumps, hd', hschema', hle, hout ▸ htrail.skip hshown⟩
  · rintro pre c post - rfl -
    refine ⟨hcalls c (by simp), ?_⟩
    rw [List.length_append, List.length_cons] at hids
    push_cast at hids
    omega

/-- **The console shows the transactions**: after calls without quotes, what was printed is a dump
for each call that is shown, whose entries are the records made, in their order. -/
theorem console_run (hvol : Volume k vol) (hinit : preInit eng noFails (some vol) = some db₀)
    (hcalls : ∀ c ∈ calls, c.QuoteFree)
    (hids : ((vol.tables transactions).getD newLog).lastId idCol + calls.length < 2 ^ 63)
    (hrun : runSteps (Console.next eng v) (db₀, []) calls = some (db, out)) :
    runSteps (next eng) db₀ calls = some db ∧ ∃ d ta tl dumps, db = some d ∧
      d.tables accounts = some ta ∧ d.tables transactions = some tl ∧
      Trail v k ((vol.tables transactions).getD newLog).rows calls out ta tl dumps := by
  obtain ⟨hnext, d, ta, tl, dumps, hd, hschema, -, htrail⟩ :=
    trail_run hvol hinit hcalls hids hrun
  exact ⟨hnext, d, ta, tl, dumps, hd, hschema.accounts_eq, hschema.transactions_eq, htrail⟩

end Run

/-- A viewer of tables without real numbers and blobs. -/
def plainViewer : Viewer := ⟨id, fun _ _ => []⟩

theorem console_run_blockedRun :
    ∃ db out, runSteps (Console.next plainEngine plainViewer) (firstDb, [])
        (blockedRun ++ [mockCall]) = some (db, out) ∧
      ∃ d ta tl dumps, db = some d ∧ d.tables accounts = some ta ∧
        d.tables transactions = some tl ∧
        Trail plainViewer (bytes "username") [] (blockedRun ++ [mockCall]) out ta tl dumps := by
  have hsome : (runSteps (Console.next plainEngine plainViewer) (firstDb, [])
      (blockedRun ++ [mockCall])).isSome := by
    decide +kernel
  obtain ⟨⟨db, out⟩, hrun⟩ := Option.isSome_iff_exists.mp hsome
  have hquotes : ∀ c ∈ blockedRun ++ [mockCall], c.QuoteFree := by decide
  have hids : newLog.lastId idCol + (blockedRun ++ [mockCall]).length < 2 ^ 63 := by decide
  exact ⟨db, out, hrun, (console_run volume_empty rfl hquotes hids hrun).2⟩

end BankSel4.Ledger
