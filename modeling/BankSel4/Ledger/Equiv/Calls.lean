import BankSel4.Ledger.Equiv.Texts

/-!
# The effect of a call on the two tables

`Schema k db ta tl`: the database holds a table `ta` of accounts, with the key `k` and a balance,
and a table `tl` of transactions with the columns the texts name.  On such a database the texts of a
call without quotes amount to postings to the accounts (`runPostings`) and a record in the log
(`Table.record`).

What a call does to the two tables, whichever statements fail: a blocked call only adds its record
(`blocked_spec`).  Where the key is `user`, as the texts have it, an authorised call makes its
creations and updates, and its record if these succeed (`authorised_spec`); where the key has
another name, it fails and changes nothing (`authorised_spec_of_ne`).
-/

namespace BankSel4.Ledger

open Sql

/-- The column `id`. -/
def idCol : Name := bytes "id"

/-- A table of accounts with the key `k`. -/
structure AccountsTable (k : Name) (t : Table) : Prop where
  key_eq : t.key = .text k
  key_text : t.cols.lookup k = some .text
  balance : t.cols.lookup balanceCol = some .integer
  user_missing : k ≠ userCol → t.cols.lookup userCol = none

/-- A table of transactions. -/
structure LogTable (t : Table) : Prop where
  key_eq : t.key = .rowid idCol
  id : t.cols.lookup idCol = some .integer
  type : t.cols.lookup (bytes "type") = some .text
  src : t.cols.lookup (bytes "src") = some .text
  dest : t.cols.lookup (bytes "dest") = some .text
  amount : t.cols.lookup (bytes "amount") = some .integer
  status : t.cols.lookup (bytes "status") = some .text

/-- The database holds the two tables, and nothing but tables. -/
structure Schema (k : Name) (db : Db) (ta tl : Table) : Prop where
  extra_eq : db.extra = []
  accounts_eq : db.tables accounts = some ta
  transactions_eq : db.tables transactions = some tl
  accountsTable : AccountsTable k ta
  logTable : LogTable tl

section Schema

variable {k : Name} {db : Db} {ta tl t : Table}

theorem Schema.setAccounts (h : Schema k db ta tl) (hcols : t.cols = ta.cols)
    (hkey : t.key = ta.key) : Schema k (db.setTable accounts t) t tl where
  extra_eq := h.extra_eq
  accounts_eq := setTable_tables_self ..
  transactions_eq := (setTable_tables_of_ne db t (by decide)).trans h.transactions_eq
  accountsTable := by
    obtain ⟨h1, h2, h3, h4⟩ := h.accountsTable
    exact ⟨hkey ▸ h1, hcols ▸ h2, hcols ▸ h3, hcols ▸ h4⟩
  logTable := h.logTable

theorem Schema.setTransactions (h : Schema k db ta tl) (hcols : t.cols = tl.cols)
    (hkey : t.key = tl.key) : Schema k (db.setTable transactions t) ta t where
  extra_eq := h.extra_eq
  accounts_eq := (setTable_tables_of_ne db t (by decide)).trans h.accounts_eq
  transactions_eq := setTable_tables_self ..
  accountsTable := h.accountsTable
  logTable := by
    obtain ⟨h1, h2, h3, h4, h5, h6, h7⟩ := h.logTable
    exact ⟨hkey ▸ h1, hcols ▸ h2, hcols ▸ h3, hcols ▸ h4, hcols ▸ h5, hcols ▸ h6, hcols ▸ h7⟩

end Schema

/-! ### Postings -/

/-- The accounts after a posting. -/
def Posting.run (eng : Engine) : Posting → Table → Table
  | .create u, t =>
    if t.hasValue userCol (.text u) then t
    else { t with rows := t.rows ++ [rowOf [(userCol, .text u), (balanceCol, .int 0)]] }
  | .add sign n u, t => { t with rows := t.rows.map (updateRow eng balanceCol sign n userCol u) }

@[simp] theorem Posting.run_cols (eng : Engine) (p : Posting) (t : Table) :
    (p.run eng t).cols = t.cols := by
  cases p with
  | create u => rw [Posting.run]; split_ifs <;> rfl
  | add sign n u => rfl

@[simp] theorem Posting.run_key (eng : Engine) (p : Posting) (t : Table) :
    (p.run eng t).key = t.key := by
  cases p with
  | create u => rw [Posting.run]; split_ifs <;> rfl
  | add sign n u => rfl

/-- The amount of the posting is a 64-bit integer. -/
def Posting.Fits : Posting → Prop
  | .create _ => True
  | .add _ n _ => fitsInt64 n = true

/-- The postings one by one, from the `k`-th statement on, until one fails. -/
def runPostings (eng : Engine) (fails : Nat → Bool) : Nat → List Posting → Table → Table × Bool
  | _, [], t => (t, true)
  | k, p :: ps, t => if fails k then (t, false) else runPostings eng fails (k + 1) ps (p.run eng t)

theorem runPostings_cols_key (eng : Engine) (fails : Nat → Bool) (k : Nat) (ps : List Posting)
    (t : Table) : (runPostings eng fails k ps t).1.cols = t.cols ∧
      (runPostings eng fails k ps t).1.key = t.key := by
  induction ps generalizing k t with
  | nil => exact ⟨rfl, rfl⟩
  | cons p ps ih =>
    rw [runPostings]
    split_ifs
    · exact ⟨rfl, rfl⟩
    · rw [(ih (k + 1) (p.run eng t)).1, (ih (k + 1) (p.run eng t)).2, p.run_cols, p.run_key]
      exact ⟨rfl, rfl⟩

/-- Without failures all postings are made. -/
theorem runPostings_noFails (eng : Engine) (i k : Nat) (ps : List Posting) (t : Table) :
    runPostings eng (noFails i) k ps t = (ps.foldl (fun t p => p.run eng t) t, true) := by
  induction ps generalizing k t with
  | nil => rfl
  | cons p ps ih => exact ih (k + 1) (p.run eng t)

section Statements

variable {eng : Engine} {fails : Nat → Bool} {text : Str} {k : Name} {db : Db} {ta tl : Table}

theorem exec_posting (h : Schema userCol db ta tl) {p : Posting} (hp : p.Fits) :
    execStmt eng db p.stmt = some (db.setTable accounts (p.run eng ta), true) := by
  have hkey := h.accountsTable.key_eq
  have htext := h.accountsTable.key_text
  have hbal := h.accountsTable.balance
  -- a posting is an `INSERT OR IGNORE` or an `UPDATE` of the accounts
  cases p with
  | create u =>
    have hadm : ta.admits [userCol, balanceCol] [.text u, .int 0] = true := by
      simp [Table.admits, hkey, htext, hbal, Literal.fits]
      decide
    have hrow : rowOf ([userCol, balanceCol].zip [.text u, .int 0]) userCol = .text u := rfl
    have hins : ta.insertRow true (rowOf ([userCol, balanceCol].zip [.text u, .int 0])) =
        some ((Posting.create u).run eng ta) := by
      rw [Table.insertRow, hkey, Posting.run]
      dsimp only
      rw [hrow]
      split_ifs <;> simp_all
    exact execInsert_of_admits h.accounts_eq true hadm hins
  | add sign n u =>
    exact execUpdate_of_lookup h.accounts_eq hbal htext hp (by rw [hkey]; simp)

/-- Where the key has another name, no posting is valid. -/
theorem exec_posting_of_ne (h : Schema k db ta tl) (hk : k ≠ userCol) (p : Posting) :
    execStmt eng db p.stmt = some (db, false) := by
  have hmissing := h.accountsTable.user_missing hk
  cases p with
  | create u => exact execInsert_of_missing h.accounts_eq (List.mem_cons_self ..) hmissing
  | add sign n u => exact execUpdate_of_missing h.accounts_eq hmissing

theorem runStmts_postings (eng : Engine) (fails : Nat → Bool) (text : Str)
    (h : Schema userCol db ta tl) {ps : List Posting} (hps : ∀ p ∈ ps, p.Fits) (j : Nat) :
    runStmts eng fails text db j (ps.map Posting.stmt) =
      (db.setTable accounts (runPostings eng fails j ps ta).1,
        (runPostings eng fails j ps ta).2) := by
  induction ps generalizing db ta j with
  | nil => rw [List.map_nil, runStmts, runPostings, setTable_eq_self h.accounts_eq]
  | cons p ps ih =>
    obtain ⟨hp, hps'⟩ := List.forall_mem_cons.mp hps
    rw [List.map_cons, runStmts_cons_of_exec (exec_posting h hp), runPostings]
    cases fails j with
    | true => simp [setTable_eq_self h.accounts_eq]
    | false => simp [ih (h.setAccounts (p.run_cols eng ta) (p.run_key eng ta)) hps']

theorem runStmts_postings_of_ne (h : Schema k db ta tl) (hk : k ≠ userCol) (p : Posting)
    (ps : List Posting) (j : Nat) :
    runStmts eng fails text db j ((p :: ps).map Posting.stmt) = (db, false) := by
  rw [List.map_cons, runStmts_cons_of_exec (exec_posting_of_ne h hk p)]
  simp

end Statements

/-! ### Records -/

/-- The row of a record, but for its id. -/
def recordRow (c : Call) (status : Str) : Row := rowOf (recordCols.zip
  [.text c.src, .text c.dest, .text c.txType, .int c.amount.toInt, .text status])

/-- The transactions after a record, and whether it succeeded. -/
def record (t : Table) (fails : Bool) (c : Call) (status : Str) : Table × Bool :=
  if fails then (t, false)
  else (t.insertRow false (recordRow c status)).elim (t, false) fun t' => (t', true)

/-- The record of a call gets the next id. -/
theorem record_of_nextId {t : Table} (h : LogTable t) {i : Int} (hi : t.nextId idCol = some i)
    (c : Call) (status : Str) :
    record t false c status = ({ t with
      rows := t.rows ++ [Function.update (recordRow c status) idCol (.int i)]
      seq := i }, true) := by
  rw [record, if_neg Bool.false_ne_true, Table.insertRow, h.key_eq]
  dsimp only
  rw [hi]
  rfl

/-- A record fails without storage and without an id. -/
theorem record_of_fails {t : Table} (h : LogTable t) {fails : Bool}
    (hfails : fails = true ∨ t.nextId idCol = none) (c : Call) (status : Str) :
    record t fails c status = (t, false) := by
  unfold record
  split_ifs with hf
  · rfl
  · rw [Table.insertRow, h.key_eq]
    dsimp only
    rw [hfails.resolve_left hf]
    rfl

theorem record_cols_key {t : Table} (h : LogTable t) (fails : Bool) (c : Call) (status : Str) :
    (record t fails c status).1.cols = t.cols ∧ (record t fails c status).1.key = t.key := by
  cases fails with
  | true => exact ⟨rfl, rfl⟩
  | false =>
    cases hi : t.nextId idCol with
    | none => rw [record_of_fails h (Or.inr hi)]; exact ⟨rfl, rfl⟩
    | some i => rw [record_of_nextId h hi]; exact ⟨rfl, rfl⟩

theorem fitsInt64_amount (c : Call) : fitsInt64 c.amount.toInt = true := by
  have hlo := c.amount.le_toInt
  have hhi := c.amount.toInt_lt
  rw [fitsInt64, Bool.and_eq_true, decide_eq_true_eq, decide_eq_true_eq]
  omega

section Texts

variable {eng : Engine} {fails : Nat → Bool} {text : Str} {k : Name} {db : Db} {ta tl : Table}

theorem runStmts_record (h : Schema k db ta tl) (c : Call) (status : Str) :
    runStmts eng fails text db 0 [recordStmt c status] =
      (db.setTable transactions (record tl (fails 0) c status).1,
        (record tl (fails 0) c status).2) := by
  have hadm : tl.admits recordCols [.text c.src, .text c.dest, .text c.txType,
      .int c.amount.toInt, .text status] = true := by
    have hcols : recordCols = [bytes "src", bytes "dest", bytes "type", bytes "amount",
      bytes "status"] := rfl
    simp only [Table.admits, hcols, List.zip_cons_cons, List.zip_nil_right, List.all_cons,
      List.all_nil, h.logTable.key_eq, h.logTable.src, h.logTable.dest, h.logTable.type,
      h.logTable.amount, h.logTable.status, Literal.fits, fitsInt64_amount, List.length_cons,
      List.length_nil]
    decide
  have hexec := execInsert_of_admits h.transactions_eq false hadm rfl
  rw [recordStmt, runStmts, execStmt, hexec, record, recordRow]
  cases fails 0 with
  | true => simp [setTable_eq_self h.transactions_eq]
  | false =>
    cases tl.insertRow false (rowOf (recordCols.zip _)) with
    | none => simp [setTable_eq_self h.transactions_eq]
    | some t => simp [runStmts]

theorem runStmts_dumpLog (h : Schema k db ta tl) :
    runStmts eng fails text db 0 [.select (["id", "type", "src", "dest", "amount", "status"].map
      bytes) transactions (some (bytes "id"))] = (db, !fails 0) := by
  obtain ⟨-, hid, htype, hsrc, hdest, hamount, hstatus⟩ := h.logTable
  have hsel : execSelect db (["id", "type", "src", "dest", "amount", "status"].map bytes)
      transactions (some (bytes "id")) = true := by
    unfold idCol at hid
    simp [execSelect, h.transactions_eq, hid, htype, hsrc, hdest, hamount, hstatus]
  rw [runStmts, execStmt, hsel]
  cases fails 0 <;> rfl

theorem runStmts_dumpAccounts (h : Schema k db ta tl) :
    runStmts eng fails text db 0 [.select [userCol, balanceCol] accounts none] =
      (db, decide (k = userCol) && !fails 0) := by
  have hsel : execSelect db [userCol, balanceCol] accounts none = decide (k = userCol) := by
    by_cases hk : k = userCol
    · simp [execSelect, h.accounts_eq, ← hk, h.accountsTable.key_text, h.accountsTable.balance]
    · simp [execSelect, h.accounts_eq, hk, h.accountsTable.user_missing hk]
  rw [runStmts, execStmt, hsel]
  cases fails 0 <;> cases decide (k = userCol) <;> rfl

end Texts

/-! ### Calls -/

theorem bind_of_ok {α β : Type} {x : CallM α} {f : α → CallM β} {s s' : Session} {a : α}
    (h : x s = (.ok a, s')) : (x >>= f) s = f a s' := by
  simp only [bind, h]

theorem bind_of_error {α β : Type} {x : CallM α} {f : α → CallM β} {s s' : Session} {e : Fault}
    (h : x s = (.error e, s')) : (x >>= f) s = (.error e, s') := by
  simp only [bind, h]

theorem bind_eq_ok {α β : Type} {x : CallM α} {f : α → CallM β} {s t : Session} {b : β} :
    (x >>= f) s = (.ok b, t) ↔ ∃ a s', x s = (.ok a, s') ∧ f a s' = (.ok b, t) := by
  constructor
  · intro h
    cases hx : x s with
    | mk r s' =>
      cases r with
      | error e =>
        rw [bind_of_error hx] at h
        cases h
      | ok a => exact ⟨a, s', rfl, (bind_of_ok hx).symm.trans h⟩
  · rintro ⟨a, s', hx, hf⟩
    rw [bind_of_ok hx, hf]

/-- What a call does to the two tables, the returned value, and which of its texts succeed. -/
structure Effect where
  accounts : Table
  log : Table
  rc : Int32
  oks : List Bool

/-- The effect of a blocked call: its record. -/
def blockedEffect (known : Bool) (fails : Nat → Nat → Bool) (c : Call) (ta tl : Table) : Effect :=
  let r := record tl (fails 0 0) c blockedStatus
  ⟨ta, r.1, -1, [r.2, !fails 1 0, known && !fails 2 0]⟩

/-- The effect of an authorised call: its creations, its updates, its record if these succeed. -/
def authorisedEffect (eng : Engine) (fails : Nat → Nat → Bool) (c : Call) (ta tl : Table) :
    Effect :=
  let created := runPostings eng (fails 0) 0 (creations c) ta
  let updated := runPostings eng (fails 1) 0 (updates c) created.1
  if updated.2 then
    let r := record tl (fails 2 0) c approvedStatus
    ⟨updated.1, r.1, 0, [created.2, true, r.2, !fails 3 0, !fails 4 0]⟩
  else ⟨updated.1, tl, -1, [created.2, false]⟩

/-- The outcome is the effect `e`, on a database whose accounts have the key `k`. -/
structure Outcome.Is (out : Outcome) (k : Name) (e : Effect) : Prop where
  exists_db : ∃ db, out.db = some db ∧ Schema k db e.accounts e.log
  ret_eq : out.ret = .ok e.rc
  oks_eq : out.log.map Exec.ok = e.oks

section Calls

variable {eng : Engine} {fails : Nat → Nat → Bool} {k : Name} {db : Db} {ta tl : Table} {c : Call}

theorem exec_of_statements {s : Session} {text : Str} {stmts : List Stmt} {r : Db × Bool}
    (hplain : s.db.extra = []) (h : statements names text = some stmts)
    (hr : runStmts eng (fails s.log.length) text s.db 0 stmts = r) :
    exec eng fails text s = (.ok r.2, ⟨r.1, s.log ++ [⟨text, r.2⟩]⟩) := by
  rw [exec, sqlExec_of_statements hplain h, hr]

theorem dumpLiveContents_of_schema {s : Session} (h : Schema k s.db ta tl) :
    dumpLiveContents eng fails c s = (.ok (if c.token ≥ 1000 then 0 else -1),
      ⟨s.db, s.log ++ [⟨dumpLogText, !fails s.log.length 0⟩,
        ⟨dumpAccountsText, decide (k = userCol) && !fails (s.log.length + 1) 0⟩]⟩) := by
  refine bind_eq_ok.mpr
    ⟨_, _, exec_of_statements h.extra_eq statements_dumpLog (runStmts_dumpLog h), bind_eq_ok.mpr
    ⟨_, _, exec_of_statements h.extra_eq statements_dumpAccounts (runStmts_dumpAccounts h), ?_⟩⟩
  simp [pure]

/-- A call that does not fault has made its texts. -/
theorem exists_of_ret {rc : Int32}
    (hret : (bankExecuteTransaction eng fails (some db) c).ret = .ok rc) :
    ∃ s, executeTransaction eng fails c ⟨db, []⟩ = (.ok rc, s) ∧
      bankExecuteTransaction eng fails (some db) c = ⟨some s.db, s.log, .ok rc⟩ := by
  refine ⟨(executeTransaction eng fails c ⟨db, []⟩).2, Prod.ext hret rfl, ?_⟩
  rw [← hret]
  rfl

/-- **Blocked calls.** -/
theorem blocked_spec (h : Schema k db ta tl) (hc : c.QuoteFree) (htoken : c.token < 1000)
    {rc : Int32} (hret : (bankExecuteTransaction eng fails (some db) c).ret = .ok rc) :
    (bankExecuteTransaction eng fails (some db) c).Is k
      (blockedEffect (decide (k = userCol)) fails c ta tl) := by
  obtain ⟨s, hrun, hout⟩ := exists_of_ret hret
  rw [executeTransaction, if_pos htoken] at hrun
  obtain ⟨sql, s₁, hsql, hrun₁⟩ := bind_eq_ok.mp hrun
  obtain ⟨htext, rfl⟩ := sprintfSql_eq_ok.mp hsql
  obtain ⟨b, s₂, hexec, hrun₂⟩ := bind_eq_ok.mp hrun₁
  -- the record keeps the shape of the tables, and so the dump can read them
  have hrec := record_cols_key h.logTable (fails 0 0) c blockedStatus
  have h' := h.setTransactions hrec.1 hrec.2
  rw [exec_of_statements h.extra_eq (statements_blocked hc htext)
    (runStmts_record h c blockedStatus)] at hexec
  obtain ⟨-, rfl⟩ := Prod.mk.inj hexec
  rw [dumpLiveContents_of_schema h'] at hrun₂
  obtain ⟨hrc, rfl⟩ := Prod.mk.inj hrun₂
  have hle : ¬ c.token ≥ 1000 := by
    rw [ge_iff_le, Int32.not_le]
    exact htoken
  rw [if_neg hle] at hrc
  rw [hout, ← hrc]
  exact ⟨⟨_, rfl, h'⟩, rfl, rfl⟩

/-- An authorised call that does not fault has made and executed its texts, up to the update if that
fails. -/
theorem executeTransaction_cases (htoken : ¬ c.token < 1000) {rc : Int32} {s s' : Session}
    (hrun : executeTransaction eng fails c s = (.ok rc, s')) :
    ∃ created updated b₁ b₂ s₁ t₁ s₂,
      sprintf 512 createFormat [.str c.src, .str c.dest] = .ok created ∧
      exec eng fails created s = (.ok b₁, s₁) ∧ updateText c created s₁ = (.ok updated, t₁) ∧
      exec eng fails updated t₁ = (.ok b₂, s₂) ∧
      (b₂ = false ∧ rc = -1 ∧ s' = s₂ ∨ b₂ = true ∧ ∃ approved b₃ s₃,
        sprintf 512 approvedFormat
          [.str c.src, .str c.dest, .str c.txType, .int c.amount.toInt] = .ok approved ∧
        exec eng fails approved s₂ = (.ok b₃, s₃) ∧
        dumpLiveContents eng fails c s₃ = (.ok rc, s')) := by
  rw [executeTransaction, if_neg htoken] at hrun
  obtain ⟨created, t₀, hcreated, hrun₁⟩ := bind_eq_ok.mp hrun
  obtain ⟨htext₁, rfl⟩ := sprintfSql_eq_ok.mp hcreated
  obtain ⟨b₁, s₁, hexec₁, hrun₂⟩ := bind_eq_ok.mp hrun₁
  obtain ⟨updated, t₁, hupdated, hrun₃⟩ := bind_eq_ok.mp hrun₂
  obtain ⟨b₂, s₂, hexec₂, hrun₄⟩ := bind_eq_ok.mp hrun₃
  refine ⟨created, updated, b₁, b₂, s₁, t₁, s₂, htext₁, hexec₁, hupdated, hexec₂, ?_⟩
  cases b₂ with
  | false =>
    obtain ⟨hrc, rfl⟩ := Prod.mk.inj hrun₄
    exact Or.inl ⟨rfl, (Except.ok.inj hrc).symm, rfl⟩
  | true =>
    rw [if_pos rfl] at hrun₄
    obtain ⟨approved, t₃, happroved, hrun₅⟩ := bind_eq_ok.mp hrun₄
    obtain ⟨htext₃, rfl⟩ := sprintfSql_eq_ok.mp happroved
    obtain ⟨b₃, s₃, hexec₃, hrun₆⟩ := bind_eq_ok.mp hrun₅
    exact Or.inr ⟨rfl, approved, b₃, s₃, htext₃, hexec₃, hrun₆⟩

/-- The three texts of an authorised call that does not fault. -/
theorem exists_texts (htoken : ¬ c.token < 1000) (hc : c.QuoteFree) {rc : Int32} {s s' : Session}
    (hrun : executeTransaction eng fails c s = (.ok rc, s')) :
    ∃ created updated, statements names created = some ((creations c).map Posting.stmt) ∧
      statements names updated = some ((updates c).map Posting.stmt) ∧
      ∃ b₁ b₂ s₁ s₂, exec eng fails created s = (.ok b₁, s₁) ∧
        exec eng fails updated s₁ = (.ok b₂, s₂) ∧
        (b₂ = false ∧ rc = -1 ∧ s' = s₂ ∨ b₂ = true ∧ ∃ approved b₃ s₃,
          statements names approved = some [recordStmt c approvedStatus] ∧
          exec eng fails approved s₂ = (.ok b₃, s₃) ∧
          dumpLiveContents eng fails c s₃ = (.ok rc, s')) := by
  obtain ⟨created, updated, b₁, b₂, s₁, t₁, s₂, htext₁, hexec₁, hupdated, hexec₂, hrest⟩ :=
    executeTransaction_cases htoken hrun
  -- where the type is not known, the second text is the first one
  have hst := statements_create hc htext₁
  obtain ⟨rfl, hst'⟩ := statements_update hc hst hupdated
  refine ⟨created, updated, hst, hst', b₁, b₂, _, s₂, hexec₁, hexec₂, hrest.imp_right ?_⟩
  rintro ⟨hb₂, approved, b₃, s₃, htext₃, hexec₃, hdump⟩
  exact ⟨hb₂, approved, b₃, s₃, statements_approved hc htext₃, hexec₃, hdump⟩

theorem fits_creations (c : Call) : ∀ p ∈ creations c, p.Fits := by
  simp [creations, Posting.Fits]

theorem fits_updates (c : Call) : ∀ p ∈ updates c, p.Fits := by
  have hfits := fitsInt64_amount c
  unfold updates updates? creations
  split_ifs <;> simp [Posting.Fits, hfits]

/-- **Authorised calls**, where the key is `user`. -/
theorem authorised_spec (h : Schema userCol db ta tl) (hc : c.QuoteFree) (htoken : ¬ c.token < 1000)
    {rc : Int32} (hret : (bankExecuteTransaction eng fails (some db) c).ret = .ok rc) :
    (bankExecuteTransaction eng fails (some db) c).Is userCol
      (authorisedEffect eng fails c ta tl) := by
  obtain ⟨s, hrun, hout⟩ := exists_of_ret hret
  obtain ⟨created, updated, hst₁, hst₂, b₁, b₂, s₁, s₂, hexec₁, hexec₂, hrest⟩ :=
    exists_texts htoken hc hrun
  generalize hr₁ : runPostings eng (fails 0) 0 (creations c) ta = r₁
  generalize hr₂ : runPostings eng (fails 1) 0 (updates c) r₁.1 = r₂
  have hrun₁ := runStmts_postings eng (fails 0) created h
    (fits_creations c) 0
  rw [hr₁] at hrun₁
  obtain ⟨-, rfl⟩ := Prod.mk.inj
    ((exec_of_statements (s := ⟨db, []⟩) h.extra_eq hst₁ hrun₁).symm.trans hexec₁)
  have h₁ : Schema userCol (db.setTable accounts r₁.1) r₁.1 tl := by
    have hshape := runPostings_cols_key eng (fails 0) 0 (creations c) ta
    exact h.setAccounts (hr₁ ▸ hshape.1) (hr₁ ▸ hshape.2)
  have hrun₂ := runStmts_postings eng (fails 1) updated h₁
    (fits_updates c) 0
  rw [hr₂, setTable_setTable] at hrun₂
  obtain ⟨hb₂, rfl⟩ := Prod.mk.inj ((exec_of_statements
    (s := ⟨db.setTable accounts r₁.1, [⟨created, r₁.2⟩]⟩) h₁.extra_eq hst₂ hrun₂).symm.trans hexec₂)
  have h₂ : Schema userCol (db.setTable accounts r₂.1) r₂.1 tl := by
    have hshape := runPostings_cols_key eng (fails 1) 0 (updates c) r₁.1
    rw [← setTable_setTable db accounts r₁.1]
    exact h₁.setAccounts (hr₂ ▸ hshape.1) (hr₂ ▸ hshape.2)
  have hok : r₂.2 = b₂ := Except.ok.inj hb₂
  rw [hout, authorisedEffect]
  simp only [hr₁, hr₂]
  rcases hrest with ⟨rfl, rfl, rfl⟩ | ⟨rfl, approved, b₃, s₃, hst₃, hexec₃, hdump⟩
  · rw [hok, if_neg Bool.false_ne_true]
    exact ⟨⟨_, rfl, h₂⟩, rfl, rfl⟩
  · have hrec := record_cols_key h.logTable (fails 2 0) c approvedStatus
    have h₃ := h₂.setTransactions hrec.1 hrec.2
    obtain ⟨-, rfl⟩ := Prod.mk.inj ((exec_of_statements
      (s := ⟨db.setTable accounts r₂.1, [⟨created, r₁.2⟩, ⟨updated, r₂.2⟩]⟩) h₂.extra_eq hst₃
      (runStmts_record h₂ c approvedStatus)).symm.trans hexec₃)
    rw [dumpLiveContents_of_schema h₃] at hdump
    obtain ⟨hrc, rfl⟩ := Prod.mk.inj hdump
    rw [if_pos (Int32.not_lt.mp htoken)] at hrc
    rw [hok, if_pos rfl, ← hrc]
    exact ⟨⟨_, rfl, h₃⟩, rfl, by simp⟩

theorem exists_updates_eq_cons (c : Call) : ∃ p ps, updates c = p :: ps := by
  unfold updates updates? creations
  split_ifs <;> exact ⟨_, _, rfl⟩

/-- **Authorised calls**, where the key has another name: both texts fail. -/
theorem authorised_spec_of_ne (h : Schema k db ta tl) (hk : k ≠ userCol) (hc : c.QuoteFree)
    (htoken : ¬ c.token < 1000) {rc : Int32}
    (hret : (bankExecuteTransaction eng fails (some db) c).ret = .ok rc) :
    (bankExecuteTransaction eng fails (some db) c).Is k ⟨ta, tl, -1, [false, false]⟩ := by
  obtain ⟨s, hrun, hout⟩ := exists_of_ret hret
  obtain ⟨created, updated, hst₁, hst₂, b₁, b₂, s₁, s₂, hexec₁, hexec₂, hrest⟩ :=
    exists_texts htoken hc hrun
  obtain ⟨p, ps, hps⟩ := exists_updates_eq_cons c
  rw [hps] at hst₂
  obtain ⟨-, rfl⟩ := Prod.mk.inj ((exec_of_statements (s := ⟨db, []⟩) h.extra_eq hst₁
    (runStmts_postings_of_ne h hk _ _ 0)).symm.trans hexec₁)
  obtain ⟨hb₂, rfl⟩ := Prod.mk.inj ((exec_of_statements (s := ⟨db, [⟨created, false⟩]⟩) h.extra_eq
    hst₂ (runStmts_postings_of_ne h hk p ps 0)).symm.trans hexec₂)
  obtain rfl : false = b₂ := Except.ok.inj hb₂
  rcases hrest with ⟨-, rfl, rfl⟩ | ⟨hfalse, -⟩
  · rw [hout]
    exact ⟨⟨_, rfl, h⟩, rfl, rfl⟩
  · cases hfalse

/-! ### Texts that fit -/

/-- The text fits `sql`. -/
def fitsSql (fmt : Str) (args : List Arg) : Prop := (sprintf 512 fmt args).toOption.isSome = true

instance (fmt : Str) (args : List Arg) : Decidable (fitsSql fmt args) :=
  inferInstanceAs (Decidable (_ = true))

theorem fitsSql_iff {fmt : Str} {args : List Arg} :
    fitsSql fmt args ↔ ∃ sql, sprintf 512 fmt args = .ok sql := by
  unfold fitsSql
  cases sprintf 512 fmt args with
  | error f => simp [Except.toOption]
  | ok sql => simp [Except.toOption]

/-- The text of the record of a blocked call fits. -/
def Call.BlockedFits (c : Call) : Prop :=
  fitsSql blockedFormat [.str c.src, .str c.dest, .str c.txType, .int c.amount.toInt]

instance (c : Call) : Decidable c.BlockedFits := inferInstanceAs (Decidable (fitsSql _ _))

/-- The texts of an authorised call fit. -/
structure Call.TextsFit (c : Call) : Prop where
  create : fitsSql createFormat [.str c.src, .str c.dest]
  transfer : c.txType = bytes "TRANSFER" → fitsSql transferFormat
    [.int c.amount.toInt, .str c.src, .int c.amount.toInt, .str c.dest]
  deposit : c.txType = bytes "DEPOSIT" → fitsSql depositFormat [.int c.amount.toInt, .str c.dest]
  withdrawal : c.txType = bytes "WITHDRAWAL" →
    fitsSql withdrawalFormat [.int c.amount.toInt, .str c.src]
  approved : fitsSql approvedFormat
    [.str c.src, .str c.dest, .str c.txType, .int c.amount.toInt]

/-- A blocked call returns, when its text fits. -/
theorem exists_ret_of_blockedFits (eng : Engine) (fails : Nat → Nat → Bool) (db : Db)
    (htoken : c.token < 1000) (hfits : c.BlockedFits) :
    ∃ rc, (bankExecuteTransaction eng fails (some db) c).ret = .ok rc := by
  obtain ⟨sql, hsql⟩ := fitsSql_iff.mp hfits
  have hrun : ∃ s, executeTransaction eng fails c ⟨db, []⟩ =
      (.ok (if c.token ≥ 1000 then 0 else -1), s) := by
    rw [executeTransaction, if_pos htoken]
    exact ⟨_, bind_eq_ok.mpr ⟨sql, _, sprintfSql_eq_ok.mpr ⟨hsql, rfl⟩, bind_eq_ok.mpr ⟨_, _, rfl,
      bind_eq_ok.mpr ⟨_, _, rfl, bind_eq_ok.mpr ⟨_, _, rfl, rfl⟩⟩⟩⟩⟩
  obtain ⟨s, hs⟩ := hrun
  exact ⟨_, congrArg Prod.fst hs⟩

theorem exists_updateText (hfits : c.TextsFit) (sql : Str) (s : Session) :
    ∃ sql', updateText c sql s = (.ok sql', s) := by
  unfold updateText
  split_ifs with htransfer hdeposit hwithdrawal
  · obtain ⟨sql', h⟩ := fitsSql_iff.mp (hfits.transfer htransfer)
    exact ⟨sql', sprintfSql_eq_ok.mpr ⟨h, rfl⟩⟩
  · obtain ⟨sql', h⟩ := fitsSql_iff.mp (hfits.deposit hdeposit)
    exact ⟨sql', sprintfSql_eq_ok.mpr ⟨h, rfl⟩⟩
  · obtain ⟨sql', h⟩ := fitsSql_iff.mp (hfits.withdrawal hwithdrawal)
    exact ⟨sql', sprintfSql_eq_ok.mpr ⟨h, rfl⟩⟩
  · exact ⟨sql, rfl⟩

/-- What follows the update returns, when the record fits. -/
theorem exists_ret_of_record (eng : Engine) (fails : Nat → Nat → Bool) (hfits : c.TextsFit)
    (rc : Bool) (s : Session) :
    ∃ r t, (if rc then do
        let sql ← sprintfSql approvedFormat
          [.str c.src, .str c.dest, .str c.txType, .int c.amount.toInt]
        let _ ← exec eng fails sql
        dumpLiveContents eng fails c
      else pure (-1) : CallM Int32) s = (.ok r, t) := by
  obtain ⟨sql, hsql⟩ := fitsSql_iff.mp hfits.approved
  cases rc with
  | false => exact ⟨-1, s, rfl⟩
  | true =>
    rw [if_pos rfl]
    exact ⟨if c.token ≥ 1000 then 0 else -1, _, bind_eq_ok.mpr ⟨sql, s,
      sprintfSql_eq_ok.mpr ⟨hsql, rfl⟩, bind_eq_ok.mpr ⟨_, _, rfl, bind_eq_ok.mpr ⟨_, _, rfl,
      bind_eq_ok.mpr ⟨_, _, rfl, rfl⟩⟩⟩⟩⟩

/-- An authorised call returns, when its texts fit. -/
theorem exists_ret_of_textsFit (eng : Engine) (fails : Nat → Nat → Bool) (db : Db)
    (htoken : ¬ c.token < 1000) (hfits : c.TextsFit) :
    ∃ rc, (bankExecuteTransaction eng fails (some db) c).ret = .ok rc := by
  obtain ⟨created, hcreated⟩ := fitsSql_iff.mp hfits.create
  obtain ⟨updated, hupdated⟩ := exists_updateText hfits created (exec eng fails created ⟨db, []⟩).2
  obtain ⟨rc, s, hrest⟩ := exists_ret_of_record eng fails hfits
    (sqlExec names eng _ _ updated).2 (exec eng fails updated (exec eng fails created ⟨db, []⟩).2).2
  have hrun : executeTransaction eng fails c ⟨db, []⟩ = (.ok rc, s) := by
    rw [executeTransaction, if_neg htoken]
    exact bind_eq_ok.mpr ⟨created, _, sprintfSql_eq_ok.mpr ⟨hcreated, rfl⟩, bind_eq_ok.mpr
      ⟨_, _, rfl, bind_eq_ok.mpr ⟨updated, _, hupdated, bind_eq_ok.mpr ⟨_, _, rfl, hrest⟩⟩⟩⟩
  exact ⟨rc, congrArg Prod.fst hrun⟩

end Calls

/-! ### The schema -/

/-- A volume with tables the schema can keep, if it has them, and nothing but tables. -/
structure Volume (k : Name) (vol : Db) : Prop where
  extra_eq : vol.extra = []
  accountsTable : ∀ t, vol.tables accounts = some t → AccountsTable k t
  no_accounts : vol.tables accounts = none → k = bytes "username"
  logTable : ∀ t, vol.tables transactions = some t → LogTable t

theorem volume_empty : Volume (bytes "username") Db.empty where
  extra_eq := rfl
  accountsTable _ h := by cases h
  no_accounts _ := rfl
  logTable _ h := by cases h

/-- The table of accounts that the schema makes. -/
def newAccounts : Table :=
  ⟨[(bytes "username", .text), (balanceCol, .integer)], .text (bytes "username"), [], 0⟩

/-- The table of transactions that the schema makes. -/
def newLog : Table := ⟨transactionsCols, .rowid (bytes "id"), [], 0⟩

theorem accountsTable_new : AccountsTable (bytes "username") newAccounts where
  key_eq := rfl
  key_text := by decide
  balance := by decide
  user_missing _ := by decide

theorem logTable_new : LogTable newLog := by
  refine ⟨rfl, ?_, ?_, ?_, ?_, ?_, ?_⟩ <;> decide

/-- `CREATE TABLE IF NOT EXISTS` leaves a table at its name: the one there was, or a new one. -/
theorem exec_create (eng : Engine) (db : Db) (name : Name) (cols : List (Name × ColType))
    (key : Key) : execStmt eng db (.create name cols key) =
      some (db.setTable name ((db.tables name).getD ⟨cols, key, [], 0⟩), true) := by
  cases h : db.tables name with
  | none => simp [execStmt, h]
  | some t => simp [execStmt, h, setTable_eq_self h]

/-- **`pre_init`** makes the tables that are missing and keeps the others. -/
theorem preInit_spec {k : Name} {vol : Db} (h : Volume k vol) (eng : Engine) :
    ∃ db, preInit eng noFails (some vol) = some (some db) ∧ Schema k db
      ((vol.tables accounts).getD newAccounts) ((vol.tables transactions).getD newLog) := by
  -- the first statement leaves the table of transactions alone
  have hne : (vol.setTable accounts ((vol.tables accounts).getD newAccounts)).tables transactions =
      vol.tables transactions := setTable_tables_of_ne vol _ (by decide)
  refine ⟨(vol.setTable accounts ((vol.tables accounts).getD newAccounts)).setTable transactions
    ((vol.tables transactions).getD newLog), ?_, ?_⟩
  · rw [preInit, Option.map_some, sqlExec_of_statements h.extra_eq statements_schema,
      runStmts_cons_of_exec (exec_create ..)]
    change some (some (runStmts _ _ _
      (vol.setTable accounts ((vol.tables accounts).getD newAccounts)) 1 _).1) = _
    rw [runStmts_cons_of_exec (exec_create ..), hne]
    rfl
  · refine ⟨h.extra_eq, ?_, setTable_tables_self .., ?_, ?_⟩
    · rw [setTable_tables_of_ne _ _ (by decide), setTable_tables_self]
    · cases ht : vol.tables accounts with
      | none => exact h.no_accounts ht ▸ accountsTable_new
      | some t => exact h.accountsTable t ht
    · cases ht : vol.tables transactions with
      | none => exact logTable_new
      | some t => exact h.logTable t ht

end BankSel4.Ledger
