import BankSel4.Ledger.Equiv.Calls

/-!
# The token check

A call is `Authorised` when it executes the account-creation text, before any other.  The Ledger
authorises every token from 1000 on, issued or not (`authorised_iff`).
-/

namespace BankSel4.Ledger

open Sql

/-! ### Texts executed -/

/-- Whatever a computation does, it keeps the texts executed before it. -/
def Extends {α : Type} (x : CallM α) : Prop := ∀ s, ∃ rest, (x s).2.log = s.log ++ rest

section Extends

variable {α β : Type} {eng : Engine} {fails : Nat → Nat → Bool}

theorem extends_pure (a : α) : Extends (pure a) := fun _ => ⟨[], (List.append_nil _).symm⟩

theorem extends_bind {x : CallM α} {f : α → CallM β} (hx : Extends x) (hf : ∀ a, Extends (f a)) :
    Extends (x >>= f) := by
  intro s
  obtain ⟨rest, hrest⟩ := hx s
  cases h : x s with
  | mk r s' =>
    rw [h] at hrest
    cases r with
    | error e =>
      rw [bind_of_error h]
      exact ⟨rest, hrest⟩
    | ok a =>
      obtain ⟨rest', hrest'⟩ := hf a s'
      refine ⟨rest ++ rest', ?_⟩
      rw [bind_of_ok h, hrest', hrest, List.append_assoc]

theorem extends_exec (text : Str) : Extends (exec eng fails text) := fun _ => ⟨_, rfl⟩

theorem extends_sprintfSql (fmt : Str) (args : List Arg) : Extends (sprintfSql fmt args) :=
  fun _ => ⟨[], (List.append_nil _).symm⟩

theorem extends_updateText (c : Call) (sql : Str) : Extends (updateText c sql) := by
  unfold updateText
  split_ifs
  · exact extends_sprintfSql _ _
  · exact extends_sprintfSql _ _
  · exact extends_sprintfSql _ _
  · exact extends_pure sql

theorem extends_dumpLiveContents (c : Call) : Extends (dumpLiveContents eng fails c) :=
  extends_bind (extends_exec _) fun _ => extends_bind (extends_exec _) fun _ => extends_pure _

/-- A computation that formats a text and executes it has executed that text first. -/
theorem head_log {fmt : Str} {args : List Arg} {f : Str → Bool → CallM α}
    (hf : ∀ sql b, Extends (f sql b)) (db : Db) :
    ((sprintfSql fmt args >>= fun sql => exec eng fails sql >>= f sql) ⟨db, []⟩).2.log.head?.map
      Exec.text = (sprintf 512 fmt args).toOption := by
  cases h : sprintf 512 fmt args with
  | error e =>
    have hsql : sprintfSql fmt args ⟨db, []⟩ = (.error e, ⟨db, []⟩) := by rw [sprintfSql, h]
    rw [bind_of_error hsql]
    rfl
  | ok sql =>
    have hsql : sprintfSql fmt args ⟨db, []⟩ = (.ok sql, ⟨db, []⟩) := by rw [sprintfSql, h]
    have hexec : exec eng fails sql ⟨db, []⟩ = (.ok (sqlExec names eng (fails 0) db sql).2,
      ⟨(sqlExec names eng (fails 0) db sql).1,
        [⟨sql, (sqlExec names eng (fails 0) db sql).2⟩]⟩) := rfl
    rw [bind_of_ok hsql, bind_of_ok hexec]
    obtain ⟨rest, hrest⟩ := hf sql _ _
    rw [hrest]
    rfl

end Extends

/-! ### The check -/

/-- The call takes the authorised path: the first text it executes is the account creation. -/
def Authorised (eng : Engine) (fails : Nat → Nat → Bool) (db : Option Db) (c : Call) : Prop :=
  ∃ text, (bankExecuteTransaction eng fails db c).log.head?.map Exec.text = some text ∧
    sprintf 512 createFormat [.str c.src, .str c.dest] = .ok text

/-- The record of a blocked call is not an account creation. -/
theorem blocked_ne_create {text : Str} {args args' : List Arg}
    (h : sprintf 512 blockedFormat args = .ok text) :
    sprintf 512 createFormat args' ≠ .ok text := by
  intro h'
  -- `INSERT I` and `INSERT O`
  have hblocked := take_of_format (n := 8) pieces_blocked (sprintf_eq_ok h) (by decide)
  have hcreate := take_of_format (n := 8) pieces_create (sprintf_eq_ok h') (by decide)
  exact absurd (hblocked.symm.trans hcreate) (by decide)

/-- **The token check**: the Ledger accepts every token from 1000 on. -/
theorem authorised_iff {eng : Engine} {fails : Nat → Nat → Bool} {db : Option Db} {c : Call} :
    Authorised eng fails db c ↔ db.isSome = true ∧ ¬ c.token < 1000 ∧
      fitsSql createFormat [.str c.src, .str c.dest] := by
  cases db with
  | none => simp [Authorised, bankExecuteTransaction]
  | some db =>
    unfold Authorised
    rw [bankExecuteTransaction, executeTransaction, fitsSql_iff]
    dsimp only
    split_ifs with htoken
    · rw [head_log (fun _ _ => extends_dumpLiveContents c)]
      refine iff_of_false ?_ (by simp [htoken])
      rintro ⟨text, hblocked, hcreate⟩
      cases h : sprintf 512 blockedFormat [.str c.src, .str c.dest, .str c.txType,
          .int c.amount.toInt] with
      | error e => simp [h, Except.toOption] at hblocked
      | ok t =>
        obtain rfl : t = text := by simpa [h, Except.toOption] using hblocked
        exact blocked_ne_create h hcreate
    · rw [head_log]
      · constructor
        · rintro ⟨text, -, hcreate⟩
          exact ⟨rfl, htoken, text, hcreate⟩
        · rintro ⟨-, -, text, hcreate⟩
          exact ⟨text, by rw [hcreate]; rfl, hcreate⟩
      · refine fun sql _ => extends_bind (extends_updateText c sql) fun sql' =>
          extends_bind (extends_exec sql') fun rc => ?_
        cases rc with
        | false => exact extends_pure _
        | true => exact extends_bind (extends_sprintfSql _ _) fun text =>
            extends_bind (extends_exec text) fun _ => extends_dumpLiveContents c

end BankSel4.Ledger
