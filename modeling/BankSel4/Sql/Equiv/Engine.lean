import BankSel4.Sql.Engine

/-!
# Texts of the fragment

A text whose statements all belong to the fragment (`statements`) is run statement by statement
(`sqlExec_of_statements`).  The lemmas on `INSERT` and `UPDATE` say what a statement does to a table
whose columns are the right ones, and that it fails when one is missing.
-/

namespace BankSel4.Sql

/-! ### Databases -/

@[simp] theorem setTable_tables_self (db : Db) (name : Name) (t : Table) :
    (db.setTable name t).tables name = some t := Function.update_self ..

theorem setTable_tables_of_ne (db : Db) {name name' : Name} (t : Table) (h : name' ≠ name) :
    (db.setTable name t).tables name' = db.tables name' := Function.update_of_ne h ..

@[simp] theorem setTable_setTable (db : Db) (name : Name) (t t' : Table) :
    (db.setTable name t).setTable name t' = db.setTable name t' := by
  simp [Db.setTable]

theorem setTable_eq_self {db : Db} {name : Name} {t : Table} (h : db.tables name = some t) :
    db.setTable name t = db := by
  unfold Db.setTable
  rw [← h, Function.update_eq_self]

/-! ### Texts -/

/-- The statements of a text, if they all belong to the fragment. -/
def statements (names : List Name) (text : Str) : Option (List Stmt) :=
  ((splitTokens Token.isSemi (tokens text)).filter (!·.isEmpty)).mapM (parseStmt names)

/-- The statements one by one, from the `k`-th on, until one fails. -/
def runStmts (eng : Engine) (fails : Nat → Bool) (text : Str) : Db → Nat → List Stmt → Db × Bool
  | db, _, [] => (db, true)
  | db, k, stmt :: rest =>
    match execStmt eng db stmt with
    | none => eng.other fails db text k
    | some (db', ok) =>
      if fails k || !ok then (db, false) else runStmts eng fails text db' (k + 1) rest

section Exec

variable {names : List Name} {eng : Engine} {fails : Nat → Bool} {text : Str}

theorem execFrom_of_mapM {groups : List (List Token)} {stmts : List Stmt}
    (h : (groups.filter (!·.isEmpty)).mapM (parseStmt names) = some stmts) (db : Db) (k : Nat) :
    execFrom names eng fails text db k groups = runStmts eng fails text db k stmts := by
  induction groups generalizing stmts db k with
  | nil =>
    obtain rfl : [] = stmts := by simpa using h
    rfl
  | cons ts groups ih =>
    rw [execFrom]
    by_cases hts : ts.isEmpty = true
    · rw [if_pos hts]
      refine ih ?_ db k
      rwa [List.filter_cons_of_neg (by simp [hts])] at h
    · rw [if_neg hts]
      rw [List.filter_cons_of_pos (by simp [hts]), List.mapM_cons] at h
      simp only [Option.pure_def, Option.bind_eq_bind, Option.bind_eq_some_iff] at h
      obtain ⟨stmt, hstmt, rest, hrest, heq⟩ := h
      obtain rfl := Option.some.inj heq
      rw [hstmt, Option.bind_some, runStmts]
      cases execStmt eng db stmt with
      | none => rfl
      | some r =>
        obtain ⟨db', ok⟩ := r
        dsimp only
        rw [ih hrest]

/-- A text of the fragment is run statement by statement. -/
theorem sqlExec_of_statements {db : Db} {stmts : List Stmt} (hplain : db.extra = [])
    (h : statements names text = some stmts) :
    sqlExec names eng fails db text = runStmts eng fails text db 0 stmts := by
  rw [sqlExec, hplain, List.isEmpty_nil, if_pos rfl, execFrom_of_mapM h]

theorem runStmts_cons_of_exec {db db' : Db} {k : Nat} {stmt : Stmt} {rest : List Stmt} {ok : Bool}
    (h : execStmt eng db stmt = some (db', ok)) :
    runStmts eng fails text db k (stmt :: rest) =
      if fails k || !ok then (db, false) else runStmts eng fails text db' (k + 1) rest := by
  rw [runStmts, h]

end Exec

/-! ### Statements -/

section Statements

variable {eng : Engine} {db : Db} {table : Name} {t : Table}

/-- The columns of values that a table admits are there. -/
theorem Table.admits_cols {cols : List Name} {vals : List Literal}
    (hadm : t.admits cols vals = true) :
    cols.all (fun c => (t.cols.lookup c).isSome) = true := by
  simp only [Table.admits, Bool.and_eq_true, beq_iff_eq, List.all_eq_true] at hadm
  obtain ⟨⟨-, hlen⟩, hall⟩ := hadm
  rw [List.all_eq_true]
  intro c hc
  obtain ⟨i, hi, rfl⟩ := List.getElem_of_mem hc
  have hmem : (cols[i], vals.get ⟨i, hlen ▸ hi⟩) ∈ cols.zip vals :=
    List.mem_iff_getElem.mpr ⟨i, by simp [hi, ← hlen], List.getElem_zip⟩
  have hfits := (hall _ hmem).2
  cases hl : t.cols.lookup cols[i] with
  | none => simp [hl] at hfits
  | some _ => rfl

theorem execInsert_of_admits (ht : db.tables table = some t) (orIgnore : Bool) {cols : List Name}
    {vals : List Literal} (hadm : t.admits cols vals = true) {r : Option Table}
    (hr : t.insertRow orIgnore (rowOf (cols.zip vals)) = r) :
    execInsert db orIgnore table cols vals =
      some (r.elim (db, false) fun t' => (db.setTable table t', true)) := by
  rw [execInsert, ht]
  dsimp only
  rw [if_pos (t.admits_cols hadm), if_pos hadm, hr]
  cases r <;> rfl

/-- An `INSERT` with a column that is not there fails. -/
theorem execInsert_of_missing (ht : db.tables table = some t) {orIgnore : Bool} {cols : List Name}
    {vals : List Literal} {c : Name} (hc : c ∈ cols) (hmissing : t.cols.lookup c = none) :
    execInsert db orIgnore table cols vals = some (db, false) := by
  have hcols : ¬ cols.all (fun c => (t.cols.lookup c).isSome) = true := by
    rw [List.all_eq_true]
    exact fun h => by simpa [hmissing] using h c hc
  rw [execInsert, ht]
  exact if_neg hcols

theorem execUpdate_of_lookup (ht : db.tables table = some t) {col key : Name} {sign : Sign}
    {n : Int} {lit : Str} (hcol : t.cols.lookup col = some .integer)
    (hkey : t.cols.lookup key = some .text) (hn : fitsInt64 n = true) (hrowid : t.key ≠ .rowid col) :
    execUpdate eng db table col sign n key lit =
      some (db.setTable table { t with rows := t.rows.map (updateRow eng col sign n key lit) },
        true) := by
  rw [execUpdate, ht]
  simp [hcol, hkey, hn, hrowid]

/-- An `UPDATE` of the rows with a column that is not there fails. -/
theorem execUpdate_of_missing (ht : db.tables table = some t) {col key : Name} {sign : Sign}
    {n : Int} {lit : Str} (hmissing : t.cols.lookup key = none) :
    execUpdate eng db table col sign n key lit = some (db, false) := by
  rw [execUpdate, ht]
  dsimp only
  rw [hmissing]
  cases t.cols.lookup col with
  | none => rfl
  | some type => cases type <;> rfl

end Statements

end BankSel4.Sql
