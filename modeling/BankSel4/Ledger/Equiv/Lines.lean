import BankSel4.Algorithm.Tells
import BankSel4.Bytes.CString
import BankSel4.Ledger.Equiv.Console

/-!
# The console tells the calls

The line of a record has a space behind each of its values but the last, and so the values can be
read off it if none of them has a space in it (`tells_columnsText`).  The words that the gateway
cuts a request into have none.  Where no account is shown, the console of a run then tells all calls
without authority, and nobody can make it look like that of other calls: `told_of_console`.
-/

namespace BankSel4.Ledger

open Sql

/-! ### Lines -/

/-- The end of a line. -/
def newline : UInt8 := 10

namespace Viewer

variable (v : Viewer)

/-- The value in the column `c`, as it is printed. -/
def valueText (c : Name) (r : Row) : Str := (v.columnText (r c)).getD (bytes "NULL")

/-- The columns of a row, as they are printed. -/
def columnsText (cols : List Name) (r : Row) : Str :=
  (bytes " | ").intercalate (cols.map fun c => c ++ bytes ": " ++ v.valueText c r)

/-- The loop puts a separator between the columns. -/
theorem columnsText_eq (cols : List Name) (r : Row) :
    (List.range cols.length).flatMap (fun i => cols.getD i [] ++ bytes ": " ++
      ((cols.map fun c => v.columnText (r c)).getD i none).getD (bytes "NULL") ++
        if i < cols.length - 1 then bytes " | " else []) = v.columnsText cols r := by
  induction cols with
  | nil => rfl
  | cons c cols ih =>
    rw [List.length_cons, List.range_succ_eq_map, List.flatMap_cons, List.flatMap_map]
    cases cols with
    | nil => simp [columnsText, valueText]
    | cons c' cols =>
      have hshift : ∀ i, i.succ < (c' :: cols).length + 1 - 1 ↔ i < (c' :: cols).length - 1 := by
        intro i
        rw [List.length_cons]
        omega
      simp only [hshift, List.map_cons (a := c), List.getD_cons_succ]
      rw [ih]
      simp [columnsText, valueText]

theorem rowLine_eq (cols : List Name) (r : Row) : v.rowLine cols r =
    bytes "[Ledger] Transaction Log Entry -> " ++ (v.columnsText cols r ++ [newline]) := by
  rw [rowLine, logViewerCallback, ← columnsText_eq, List.length_map, List.append_assoc]
  rfl

/-- The values can be told apart: the last one is in its line, and there is no space in another. -/
def Legible : List Name → Row → Prop
  | [], _ => True
  | [c], r => newline ∉ v.valueText c r
  | c :: cols, r => space ∉ v.valueText c r ∧ Legible cols r

/-- **The line of a row** tells its values. -/
theorem tells_columnsText {cols : List Name} (hne : cols ≠ []) :
    Tells (v.Legible cols) (fun r => v.columnsText cols r ++ [newline])
      fun r => cols.map fun c => v.valueText c r := by
  induction cols with
  | nil => exact absurd rfl hne
  | cons c cols ih =>
    cases cols with
    | nil =>
      have hcell : Tells (v.Legible [c]) _ _ :=
        (tells_const (c ++ bytes ": ")).append (tells_delimited fun r hr => hr)
      refine (hcell.congr fun r _ => ?_).imp fun r r' _ _ h => ?_
      · simp [columnsText]
      · simpa using h
    | cons c' cols =>
      have hcell : Tells (v.Legible (c :: c' :: cols)) _ _ :=
        (tells_const (c ++ bytes ": ")).append ((tells_delimited fun r hr => hr.1).append
          ((tells_const (bytes "| ")).append ((ih (by simp)).mono fun r hr => hr.2)))
      refine (hcell.congr fun r _ => ?_).imp fun r r' _ _ h => ?_
      · have hsep : bytes " | " = space :: bytes "| " := rfl
        simp [columnsText, hsep]
      · simpa using h

end Viewer

/-! ### Records -/

/-- The strings of the call are C strings without spaces. -/
def Call.Legible (c : Call) : Prop :=
  ∀ s ∈ [c.txType, c.src, c.dest], NoNul s ∧ space ∉ s

instance (c : Call) : Decidable c.Legible := inferInstanceAs (Decidable (∀ _ ∈ _, NoNul _ ∧ _ ∉ _))

/-- What the record of a call tells. -/
def Call.told (c : Call) : Str × Str × Str × Int32 := (c.txType, c.src, c.dest, c.amount)

section Records

variable (v : Viewer) (c : Call) (i : Int)

theorem valueTexts_recordAt : (logColumns.map fun n => v.valueText n (c.recordAt i)) =
    [decimal i, c.txType.takeWhile (· != 0), c.src.takeWhile (· != 0), c.dest.takeWhile (· != 0),
      decimal c.amount.toInt, c.status.takeWhile (· != 0)] := by
  have hid : v.valueText (bytes "id") (c.recordAt i) = decimal i := by
    rw [Viewer.valueText, Call.recordAt, show bytes "id" = idCol from rfl, Function.update_self]
    rfl
  have hother : ∀ n, n ≠ idCol →
      v.valueText n (c.recordAt i) = v.valueText n (recordRow c c.status) := by
    intro n hn
    rw [Viewer.valueText, Call.recordAt, Function.update_of_ne hn, Viewer.valueText]
  simp only [logColumns, List.map_cons, List.map_nil, hid]
  rw [hother _ (by decide), hother _ (by decide), hother _ (by decide), hother _ (by decide),
    hother _ (by decide)]
  rfl

theorem not_mem_decimal {d : UInt8} (hminus : d ≠ 45) (hdigit : isDigit d = false) (n : Int) :
    d ∉ decimal n := by
  intro hmem
  obtain rfl | hd := mem_decimal hmem
  · exact hminus rfl
  · rw [hdigit] at hd
    cases hd

theorem newline_not_mem_status : newline ∉ c.status.takeWhile (· != 0) := by
  unfold Call.status
  split_ifs <;> decide

variable {c}

theorem legible_recordAt (h : c.Legible) : v.Legible logColumns (c.recordAt i) := by
  have hvals := valueTexts_recordAt v c i
  have hword : ∀ s ∈ [c.txType, c.src, c.dest], space ∉ s.takeWhile (· != 0) := fun s hs hmem =>
    (h s hs).2 ((List.takeWhile_prefix _).subset hmem)
  simp only [logColumns, List.map_cons, List.map_nil, List.cons.injEq] at hvals
  obtain ⟨hid, htype, hsrc, hdest, hamount, hstatus, -⟩ := hvals
  simp only [logColumns, List.map_cons, List.map_nil, Viewer.Legible, hid, htype, hsrc, hdest,
    hamount, hstatus]
  exact ⟨not_mem_decimal (by decide) (by decide) i, hword _ (by simp), hword _ (by simp),
    hword _ (by simp), not_mem_decimal (by decide) (by decide) _, newline_not_mem_status c⟩

theorem told_eq {c' : Call} {j : Int} (h : c.Legible) (h' : c'.Legible)
    (heq : (logColumns.map fun n => v.valueText n (c.recordAt i)) =
      logColumns.map fun n => v.valueText n (c'.recordAt j)) : c.told = c'.told := by
  have hword : ∀ {c : Call}, c.Legible → ∀ s ∈ [c.txType, c.src, c.dest],
      s.takeWhile (· != 0) = s := fun hc s hs => takeWhile_of_noNul (hc s hs).1
  rw [valueTexts_recordAt, valueTexts_recordAt] at heq
  simp only [List.cons.injEq] at heq
  obtain ⟨-, htype, hsrc, hdest, hamount, -, -⟩ := heq
  rw [hword h _ (by simp), hword h' _ (by simp)] at htype hsrc hdest
  have hint : c.amount.toInt = c'.amount.toInt := by
    have hnum := congrArg numeral? hamount
    rw [numeral?_decimal, numeral?_decimal] at hnum
    exact Option.some.inj hnum
  rw [Call.told, Call.told, htype, hsrc, hdest, Int32.toInt_inj.mp hint]

end Records

/-! ### Consoles -/

/-- A dump of a call without authority that shows no account. -/
def Dump.Plain (x : Dump) : Prop := x.call.Legible ∧ x.call.token < 1000 ∧ x.accounts = []

theorem tells_text (v : Viewer) : Tells Dump.Plain (Dump.text v) fun x => x.call.told := by
  have hline : Tells Dump.Plain (fun x => v.columnsText logColumns x.entry ++ [newline])
      fun x => logColumns.map fun n => v.valueText n x.entry := by
    intro x y s t hx hy
    exact v.tells_columnsText (by decide) x.entry y.entry s t (legible_recordAt v x.id hx.1)
      (legible_recordAt v y.id hy.1)
  have hdump : Tells Dump.Plain _ _ :=
    (tells_const (alertText ++ recordHeader ++ bytes "[Ledger] Transaction Log Entry -> ")).append
      (hline.append (tells_const (accountsHeader ++ ruler)))
  refine (hdump.congr fun x hx => ?_).imp fun x y hx hy h => ?_
  · rw [Dump.text, if_pos hx.2.1, dumpText, hx.2.2, List.flatMap_singleton, v.rowLine_eq]
    simp only [List.flatMap_nil, List.append_nil, List.append_assoc]
  · exact told_eq v x.id hx.1 hy.1 (congrArg (fun told => told.2.1) h)

theorem text_ne_nil (v : Viewer) (x : Dump) : x.text v ≠ [] := by
  have hheader : recordHeader ≠ [] := by decide
  simp [Dump.text, dumpText, hheader]

/-- Where no account is shown, the dumps are those of the calls without authority. -/
theorem Trail.plain {v : Viewer} {k : Name} {old : List Row} {calls : List Call} {out : Str}
    {ta tl : Table} {dumps : List Dump} (h : Trail v k old calls out ta tl dumps) (hk : k ≠ userCol)
    (hcalls : ∀ c ∈ calls, c.Legible) :
    (∀ x ∈ dumps, x.Plain) ∧ dumps.map Dump.call = calls.filter fun c => c.token < 1000 := by
  have hshown : ∀ c : Call, c.Shown k ↔ c.token < 1000 := fun c => or_iff_left hk
  have hfilter := h.calls_eq
  simp only [hshown] at hfilter
  refine ⟨fun x hx => ?_, hfilter⟩
  have hmem := List.mem_map_of_mem (f := Dump.call) hx
  rw [hfilter, List.mem_filter, decide_eq_true_eq] at hmem
  exact ⟨hcalls _ hmem.1, hmem.2, h.hidden hk x hx⟩

/-- **The console tells the calls without authority**, where no account is shown: two runs of calls
without spaces whose consoles are the same have the same records. -/
theorem told_of_console {eng eng' : Engine} {v : Viewer} {k k' : Name} {vol vol' : Db}
    (hvol : Volume k vol) (hvol' : Volume k' vol') (hk : k ≠ userCol) (hk' : k' ≠ userCol)
    {db₀ db₀' : Option Db} (hinit : preInit eng noFails (some vol) = some db₀)
    (hinit' : preInit eng' noFails (some vol') = some db₀') {calls calls' : List Call}
    (hquotes : ∀ c ∈ calls ++ calls', c.QuoteFree) (hcalls : ∀ c ∈ calls ++ calls', c.Legible)
    (hids : ((vol.tables transactions).getD newLog).lastId idCol + calls.length < 2 ^ 63)
    (hids' : ((vol'.tables transactions).getD newLog).lastId idCol + calls'.length < 2 ^ 63)
    {db db' : Option Db} {out : Str}
    (hrun : runSteps (Console.next eng v) (db₀, []) calls = some (db, out))
    (hrun' : runSteps (Console.next eng' v) (db₀', []) calls' = some (db', out)) :
    (calls.filter fun c => c.token < 1000).map Call.told =
      (calls'.filter fun c => c.token < 1000).map Call.told := by
  obtain ⟨hq, hq'⟩ := List.forall_mem_append.mp hquotes
  obtain ⟨hl, hl'⟩ := List.forall_mem_append.mp hcalls
  obtain ⟨-, _, _, _, dumps, -, -, -, htrail⟩ := trail_run hvol hinit hq hids hrun
  obtain ⟨-, _, _, _, dumps', -, -, -, htrail'⟩ := trail_run hvol' hinit' hq' hids' hrun'
  obtain ⟨hplain, hfilter⟩ := htrail.plain hk hl
  obtain ⟨hplain', hfilter'⟩ := htrail'.plain hk' hl'
  have htold := (tells_text v).map_eq (text_ne_nil v) hplain hplain'
    (htrail.console_eq.symm.trans htrail'.console_eq)
  rw [← hfilter, ← hfilter', List.map_map, List.map_map]
  exact htold

/-- With a space in a name, two records print the same line. -/
example : plainViewer.rowLine logColumns
      (Call.recordAt ⟨1, bytes "a | dest: b", bytes "c", bytes "TRANSFER", 5⟩ 1) =
    plainViewer.rowLine logColumns
      (Call.recordAt ⟨1, bytes "a", bytes "b | dest: c", bytes "TRANSFER", 5⟩ 1) := by
  decide +kernel

/-- The token of a call without authority is not shown. -/
theorem next_token (eng : Engine) (v : Viewer) (s : Option Db × Str) {c : Call} {t : Int32}
    (hc : c.token < 1000) (ht : t < 1000) :
    Console.next eng v s { c with token := t } = Console.next eng v s c := by
  have hdump : Console.dumpLiveContents eng v { c with token := t } =
      Console.dumpLiveContents eng v c := by
    have hc' : ¬ c.token ≥ 1000 := Int32.not_le.mpr hc
    have ht' : ¬ t ≥ 1000 := Int32.not_le.mpr ht
    simp only [Console.dumpLiveContents, if_neg hc', if_neg ht']
  have hrun : Console.executeTransaction eng v { c with token := t } =
      Console.executeTransaction eng v c := by
    rw [Console.executeTransaction, Console.executeTransaction, if_pos hc, if_pos ht, hdump]
  unfold Console.next Console.bankExecuteTransaction
  rw [hrun]

theorem runSteps_token (eng : Engine) (v : Viewer) (s : Option Db × Str) {calls : List Call}
    (hcalls : ∀ c ∈ calls, c.token < 1000) {t : Int32} (ht : t < 1000) :
    runSteps (Console.next eng v) s (calls.map fun c => { c with token := t }) =
      runSteps (Console.next eng v) s calls := by
  induction calls generalizing s with
  | nil => rfl
  | cons c calls ih =>
    obtain ⟨hc, hcalls⟩ := List.forall_mem_cons.mp hcalls
    rw [List.map_cons, runSteps_cons, runSteps_cons, next_token eng v s hc ht]
    exact congrArg _ (funext fun s' => ih s' hcalls)

/-- The calls of `blockedRun` with other tokens. -/
theorem told_of_console_blockedRun :
    (blockedRun.filter fun c => c.token < 1000).map Call.told =
      ((blockedRun.map fun c => { c with token := 7 }).filter fun c => c.token < 1000).map
        Call.told := by
  have hsome : (runSteps (Console.next plainEngine plainViewer) (firstDb, [])
      blockedRun).isSome := by
    decide +kernel
  obtain ⟨⟨db, out⟩, hrun⟩ := Option.isSome_iff_exists.mp hsome
  have hrun' : runSteps (Console.next plainEngine plainViewer) (firstDb, [])
      (blockedRun.map fun c => { c with token := 7 }) = some (db, out) :=
    (runSteps_token _ _ _ (by decide) (by decide)).trans hrun
  exact told_of_console volume_empty volume_empty (by decide) (by decide) rfl rfl (by decide)
    (by decide) (by decide) (by decide) hrun hrun'

end BankSel4.Ledger
