import BankSel4.Ledger.Equiv.Audit
import BankSel4.Ledger.Equiv.Console

/-!
# The tables after a run

While there is storage, and ids are left, the two tables are what the calls make of them one by one:
each call that is shown adds its record, and where the key of the accounts is `user` each authorised
call makes its postings (`tables_run`).  So accounts that are empty at first stand for the book that
the entries of the authorised calls are replayed to: `represents_run`.
-/

namespace BankSel4.Ledger

open Sql

/-- The accounts after the calls, where their key is `k`. -/
def accountsAfter (eng : Engine) (k : Name) (calls : List Call) (ta : Table) : Table :=
  if k = userCol then (calls.flatMap Call.postings).foldl (fun t p => p.run eng t) ta else ta

/-- The transactions after the calls. -/
def logAfter (k : Name) (calls : List Call) (tl : Table) : Table :=
  (calls.filter fun c => c.Shown k).foldl logged tl

/-- The entries of the authorised calls. -/
def entries (calls : List Call) : List Entry :=
  (calls.filter fun c => ¬ c.token < 1000).map Call.entry

section Calls

variable {eng : Engine} {k : Name} {db : Db} {ta tl : Table} {c : Call} {calls : List Call}

theorem accountsAfter_cons : accountsAfter eng k (c :: calls) ta =
    accountsAfter eng k calls (accountsAfter eng k [c] ta) := by
  unfold accountsAfter
  split_ifs
  · rw [List.flatMap_cons, List.flatMap_singleton, List.foldl_append]
  · rfl

theorem logAfter_cons : logAfter k (c :: calls) tl = logAfter k calls (logAfter k [c] tl) := by
  unfold logAfter
  rw [← List.singleton_append, List.filter_append, List.foldl_append]

theorem logAfter_of_shown (h : c.Shown k) : logAfter k [c] tl = logged tl c := by
  simp [logAfter, h]

theorem logAfter_of_not_shown (h : ¬ c.Shown k) : logAfter k [c] tl = tl := by
  simp [logAfter, h]

theorem lastId_logAfter_le : (logAfter k [c] tl).lastId idCol ≤ tl.lastId idCol + 1 := by
  by_cases h : c.Shown k
  · rw [logAfter_of_shown h]
    exact lastId_logged_le tl c
  · rw [logAfter_of_not_shown h]
    exact Int.le_add_one le_rfl

/-- The step: a call makes its postings and its record. -/
theorem tables_step (h : Schema k db ta tl) (hc : c.QuoteFree) (hid : tl.lastId idCol < 2 ^ 63 - 1)
    {db' : Option Db} (hs : next eng (some db) c = some db') :
    ∃ d, db' = some d ∧ Schema k d (accountsAfter eng k [c] ta) (logAfter k [c] tl) := by
  obtain ⟨rc, hret, rfl⟩ := next_eq_some hs
  have hrecord := record_eq_logged h.logTable hid c
  by_cases htoken : c.token < 1000
  · obtain ⟨⟨d, hd, hschema⟩, -, -⟩ := blocked_spec h hc htoken hret
    have hlog : (record tl false c blockedStatus).1 = logged tl c := by
      rw [← show c.status = blockedStatus from if_pos htoken, hrecord]
    have haccounts : accountsAfter eng k [c] ta = ta := by
      simp [accountsAfter, Call.postings, htoken]
    rw [logAfter_of_shown (Or.inl htoken), haccounts, ← hlog]
    exact ⟨d, hd, hschema⟩
  · have hlog : (record tl false c approvedStatus).1 = logged tl c := by
      rw [← show c.status = approvedStatus from if_neg htoken, hrecord]
    by_cases hk : k = userCol
    · subst hk
      obtain ⟨⟨d, hd, hschema⟩, -, -⟩ := authorised_spec h hc htoken hret
      rw [authorisedEffect_noFails htoken, hlog] at hschema
      have haccounts : accountsAfter eng userCol [c] ta =
          c.postings.foldl (fun t p => p.run eng t) ta := by
        rw [accountsAfter, if_pos rfl, List.flatMap_singleton]
      rw [logAfter_of_shown (Or.inr rfl), haccounts]
      exact ⟨d, hd, hschema⟩
    · obtain ⟨⟨d, hd, hschema⟩, -, -⟩ := authorised_spec_of_ne h hk hc htoken hret
      rw [logAfter_of_not_shown (not_or.mpr ⟨htoken, hk⟩), accountsAfter, if_neg hk]
      exact ⟨d, hd, hschema⟩

/-- **The tables after a run** are a function of the calls. -/
theorem tables_run (h : Schema k db ta tl) (hcalls : ∀ c ∈ calls, c.QuoteFree)
    (hids : tl.lastId idCol + calls.length < 2 ^ 63) {db' : Option Db}
    (hrun : runSteps (next eng) (some db) calls = some db') :
    ∃ d, db' = some d ∧ Schema k d (accountsAfter eng k calls ta) (logAfter k calls tl) := by
  induction calls generalizing db ta tl with
  | nil =>
    refine ⟨db, (Option.some.inj hrun).symm, ?_⟩
    have haccounts : accountsAfter eng k [] ta = ta := ite_self _
    rwa [haccounts]
  | cons c calls ih =>
    obtain ⟨hc, hcalls⟩ := List.forall_mem_cons.mp hcalls
    obtain ⟨db₁, hdb₁, hrest⟩ := Option.bind_eq_some_iff.mp hrun
    rw [List.length_cons] at hids
    push_cast at hids
    obtain ⟨d₁, rfl, h₁⟩ := tables_step h hc (by omega) hdb₁
    have hle : (logAfter k [c] tl).lastId idCol ≤ tl.lastId idCol + 1 := lastId_logAfter_le
    rw [accountsAfter_cons, logAfter_cons]
    exact ih h₁ hcalls (by omega) hrest

theorem entries_concat (calls : List Call) (c : Call) :
    entries (calls ++ [c]) = entries calls ++ if c.token < 1000 then [] else [c.entry] := by
  rw [entries, List.filter_append, List.map_append, ← entries]
  split_ifs with htoken
  · rw [List.filter_cons_of_neg (by simpa using htoken), List.filter_nil, List.map_nil]
  · rw [List.filter_cons_of_pos (by simpa using htoken), List.filter_nil, List.map_singleton]

/-- The book is that of the entries. -/
theorem book_eq_replay (calls : List Call) : book calls = replay (entries calls) := by
  induction calls using List.reverseRecOn with
  | nil => rfl
  | append_singleton calls c ih =>
    rw [book_append, ih, entries_concat, Call.postings]
    split_ifs
    · rw [List.append_nil, List.foldl_nil]
    · rw [foldl_postings, replay_append]

/-- Accounts that are empty at first stand for the book of the entries. -/
theorem represents_run (eng : Engine) (hta : ta.rows = [])
    (hrange : InRange (calls.flatMap Call.postings) Accounts.empty) :
    Represents (accountsAfter eng userCol calls ta) (replay (entries calls)) := by
  have hempty : Represents ta Accounts.empty := by
    rw [Represents, hta]
    exact .nil
  rw [← book_eq_replay, accountsAfter, if_pos rfl]
  exact hempty.foldl_run eng hrange

end Calls

end BankSel4.Ledger
