import BankSel4.Ledger.Equiv.Runs

/-!
# Calls without authority

`BlockedExact eng db c`: the call returns -1, leaves the accounts as they are, and adds its record
to the transactions, marked as blocked.  `blockedExact_of_quoteFree`: so does every blocked call of
a run of calls without quotes.  A quote ends the literal it is put into, and what follows it is run
as SQL: `not_blockedExact_injection`.
-/

namespace BankSel4.Ledger

open Sql

/-- The row is the record of the call. -/
structure Records (r : Row) (c : Call) (status : Str) : Prop where
  src : r (bytes "src") = .text c.src
  dest : r (bytes "dest") = .text c.dest
  type : r (bytes "type") = .text c.txType
  amount : r (bytes "amount") = .int c.amount.toInt
  status : r (bytes "status") = .text status

theorem records_recordRow (c : Call) (status : Str) (v : Value) :
    Records (Function.update (recordRow c status) idCol v) c status := by
  refine ⟨?_, ?_, ?_, ?_, ?_⟩ <;> rw [Function.update_of_ne (by decide)] <;> rfl

/-- A blocked call changes nothing but for its record. -/
def BlockedExact (eng : Engine) (db : Option Db) (c : Call) : Prop :=
  (bankExecuteTransaction eng noFails db c).ret = .ok (-1) ∧
  ∃ d d' t t' r, db = some d ∧ (bankExecuteTransaction eng noFails db c).db = some d' ∧
    d'.tables accounts = d.tables accounts ∧
    d.tables transactions = some t ∧ d'.tables transactions = some t' ∧
    t'.rows = t.rows ++ [r] ∧ Records r c blockedStatus

/-- A blocked call without quotes, on a database with the tables of the schema. -/
theorem blockedExact_of_schema {eng : Engine} {k : Name} {db : Db} {ta tl : Table}
    (h : Schema k db ta tl) {c : Call} (hc : c.QuoteFree) (htoken : c.token < 1000)
    (hfits : c.BlockedFits) (hid : tl.lastId idCol < 2 ^ 63 - 1) :
    BlockedExact eng (some db) c := by
  obtain ⟨rc, hret⟩ := exists_ret_of_blockedFits eng noFails db htoken hfits
  obtain ⟨⟨d, hd, hschema⟩, hrc, -⟩ := blocked_spec h hc htoken hret
  have hnext : tl.nextId idCol = some (tl.lastId idCol + 1) := if_pos hid
  have hrec := record_of_nextId h.logTable hnext c blockedStatus
  refine ⟨hrc, db, d, tl, _, _, rfl, hd, hschema.accounts_eq.trans h.accounts_eq.symm,
    h.transactions_eq, hschema.transactions_eq, congrArg (fun r => r.1.rows) hrec,
    records_recordRow c blockedStatus _⟩

/-- **Blocked calls** in a run of calls without quotes change nothing but for their records. -/
theorem blockedExact_of_quoteFree {eng : Engine} {k : Name} {vol : Db} (hvol : Volume k vol)
    {db : Option Db} (hinit : preInit eng noFails (some vol) = some db) {calls : List Call}
    (hcalls : ∀ c ∈ calls, c.QuoteFree)
    (hids : ((vol.tables transactions).getD newLog).lastId idCol + calls.length < 2 ^ 63) :
    EveryStep (next eng) (fun _ db c => c.token < 1000 → c.BlockedFits → BlockedExact eng db c) db
      calls := by
  rintro pre c post db' rfl hrun htoken hfits
  obtain ⟨d, ta, tl, rfl, hschema, hid⟩ := run_schema hvol hinit
    (fun x hx => hcalls x (List.mem_append_left _ hx)) hrun
  -- the calls before it have given at most one id each
  refine blockedExact_of_schema hschema (hcalls c (by simp)) htoken hfits ?_
  rw [List.length_append, List.length_cons] at hids
  push_cast at hids
  omega

/-- Two blocked calls, of an account and of a name, on an empty volume. -/
def blockedRun : List Call :=
  [⟨-1, bytes "Alice", bytes "Bob", bytes "TRANSFER", 100⟩,
    ⟨999, bytes "x", bytes "", bytes "?", -5⟩]

theorem blockedExact_blockedRun :
    ∃ db, preInit plainEngine noFails (some Db.empty) = some db ∧
      EveryStep (next plainEngine)
        (fun _ db c => c.token < 1000 → c.BlockedFits → BlockedExact plainEngine db c) db
        blockedRun :=
  ⟨_, rfl, blockedExact_of_quoteFree volume_empty rfl (by decide) (by decide)⟩

/-- A source that closes its literal and the statement, and makes an account. -/
def injection : Call :=
  ⟨5, bytes "a', 'b', 'c', 1, 'd'); INSERT INTO accounts (username, balance) VALUES ('mallory', 1000000); -- ",
    bytes "b", bytes "t", 1⟩

/-- The number of accounts. -/
def accountCount (db : Option Db) : Option Nat :=
  (db.bind fun d => d.tables accounts).map fun t => t.rows.length

/-- The blocked call makes an account with a balance of 1000000. -/
theorem not_blockedExact_injection :
    preInit plainEngine noFails (some Db.empty) = some firstDb ∧ injection.token < 1000 ∧
      injection.BlockedFits ∧ ¬ BlockedExact plainEngine firstDb injection := by
  refine ⟨rfl, by decide, by decide +kernel, ?_⟩
  rintro ⟨-, d, d', t, t', r, hd, hd', haccounts, -⟩
  have hcount : accountCount (bankExecuteTransaction plainEngine noFails firstDb injection).db ≠
      accountCount firstDb := by
    decide +kernel
  rw [hd', hd, accountCount, accountCount, Option.bind_some, Option.bind_some, haccounts] at hcount
  exact hcount rfl

end BankSel4.Ledger
