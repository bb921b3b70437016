import BankSel4.Ledger.Equiv.Balances
import BankSel4.Ledger.Equiv.Blocked

/-!
# Calls whose statements fail

Any statement of a call can fail for lack of storage, and each one that does not is committed.
`AllOrNothing`: the call returns 0 with its debit, its credit and its record present, or it returns
-1 with all balances and records as before.

`allOrNothing_iff` says for which failures this holds (`Completes`): the first update fails; or the
credit of a transfer fails after a debit that no account shows; or no update fails, the record does
not fail either, and the accounts exist or are created.
-/

namespace BankSel4.Ledger

open Sql

/-- The debit and the credit are present. -/
def Posted (eng : Engine) (c : Call) (t t' : Table) : Prop :=
  ∀ u, c.Debits u ∨ c.Credits u →
    balanceOf t' userCol u = some (c.posted eng u (startBalance t userCol u))

/-- No balance has changed. -/
def KeepsBalances (t t' : Table) : Prop :=
  ∀ u v, balanceOf t userCol u = some v → balanceOf t' userCol u = some v

/-- The approved record of the call is added. -/
def AddsRecord (c : Call) (t t' : Table) : Prop :=
  ∃ r, t'.rows = t.rows ++ [r] ∧ Records r c approvedStatus

/-- The call is done, or nothing is. -/
def AllOrNothing (eng : Engine) (fails : Nat → Nat → Bool) (db : Db) (c : Call) : Prop :=
  ∃ db' ta ta' tl tl', (bankExecuteTransaction eng fails (some db) c).db = some db' ∧
    db.tables accounts = some ta ∧ db'.tables accounts = some ta' ∧
    db.tables transactions = some tl ∧ db'.tables transactions = some tl' ∧
    ((bankExecuteTransaction eng fails (some db) c).ret = .ok 0 ∧
        Posted eng c ta ta' ∧ AddsRecord c tl tl' ∨
      (bankExecuteTransaction eng fails (some db) c).ret = .ok (-1) ∧
        KeepsBalances ta ta' ∧ tl'.rows = tl.rows)

/-- The failures that leave the call done or nothing done. -/
def Completes (eng : Engine) (fails : Nat → Nat → Bool) (ta tl : Table) (c : Call) : Prop :=
  fails 1 0 = true ∨
  (fails 1 0 = false ∧ c.txType = bytes "TRANSFER" ∧ fails 1 1 = true ∧
    ∀ v, balanceOf ta userCol c.src = some v → eng.combine .minus v c.amount.toInt = v) ∨
  (UpdatesRun (fails 1) c ∧ fails 2 0 = false ∧ tl.nextId idCol ≠ none ∧
    ∀ u, c.Debits u ∨ c.Credits u →
      (balanceOf ta userCol u).isSome = true ∨ Created (fails 0) c u)

section AllOrNothing

variable {eng : Engine} {fails : Nat → Nat → Bool} {db : Db} {ta tl : Table} {c : Call}

/-- The property of the outcome, by the effect of the call on the two tables. -/
theorem allOrNothing_iff_effect (h : Schema userCol db ta tl) {e : Effect}
    (hout : (bankExecuteTransaction eng fails (some db) c).Is userCol e) :
    AllOrNothing eng fails db c ↔
      e.rc = 0 ∧ Posted eng c ta e.accounts ∧ AddsRecord c tl e.log ∨
        e.rc = -1 ∧ KeepsBalances ta e.accounts ∧ e.log.rows = tl.rows := by
  obtain ⟨⟨db', hdb', hschema⟩, hret, -⟩ := hout
  unfold AllOrNothing
  rw [hret]
  simp only [Except.ok.injEq]
  constructor
  · rintro ⟨d, t₁, t₂, t₃, t₄, hd, h₁, h₂, h₃, h₄, hcases⟩
    obtain rfl := Option.some.inj (hdb'.symm.trans hd)
    obtain rfl := Option.some.inj (h.accounts_eq.symm.trans h₁)
    obtain rfl := Option.some.inj (hschema.accounts_eq.symm.trans h₂)
    obtain rfl := Option.some.inj (h.transactions_eq.symm.trans h₃)
    obtain rfl := Option.some.inj (hschema.transactions_eq.symm.trans h₄)
    exact hcases
  · exact fun hcases => ⟨db', ta, _, tl, _, hdb', h.accounts_eq, hschema.accounts_eq,
      h.transactions_eq, hschema.transactions_eq, hcases⟩

/-- The accounts after the creations of the call. -/
def createdTable (eng : Engine) (fails : Nat → Nat → Bool) (c : Call) (ta : Table) : Table :=
  (runPostings eng (fails 0) 0 (creations c) ta).1

theorem keepsBalances_created : KeepsBalances ta (createdTable eng fails c ta) := by
  intro u v hv
  rw [createdTable, balanceOf_creations, hv]
  rfl

/-- A debit without its credit changes no balance only if no account shows it. -/
theorem keepsBalances_debit_iff :
    KeepsBalances ta
      ((Posting.add .minus c.amount.toInt c.src).run eng (createdTable eng fails c ta)) ↔
      ∀ v, balanceOf ta userCol c.src = some v → eng.combine .minus v c.amount.toInt = v := by
  constructor
  · intro h v hv
    have hafter := h c.src v hv
    rw [balanceOf_add, keepsBalances_created c.src v hv] at hafter
    simpa using hafter
  · intro h u v hv
    rw [balanceOf_add, keepsBalances_created u v hv, Option.map_some]
    split_ifs with hu
    · rw [h v (hu ▸ hv)]
    · rfl

/-- Updates that do not fail are present where the accounts are. -/
theorem posted_iff (hsup : c.Supported) (hrun : UpdatesRun (fails 1) c) :
    Posted eng c ta (runPostings eng (fails 1) 0 (updates c) (createdTable eng fails c ta)).1 ↔
      ∀ u, c.Debits u ∨ c.Credits u →
        (balanceOf ta userCol u).isSome = true ∨ Created (fails 0) c u := by
  obtain ⟨-, hbalance⟩ := updates_spec eng (createdTable eng fails c ta) hsup hrun
  refine forall₂_congr fun u _ => ?_
  rw [hbalance, createdTable, balanceOf_creations, startBalance]
  cases hu : balanceOf ta userCol u with
  | some v => simp
  | none =>
    by_cases hcreated : Created (fails 0) c u
    · simp [hcreated]
    · simp [hcreated]

/-- The record is present unless it fails. -/
theorem addsRecord_iff (h : LogTable tl) :
    AddsRecord c tl (record tl (fails 2 0) c approvedStatus).1 ↔
      fails 2 0 = false ∧ tl.nextId idCol ≠ none := by
  constructor
  · rintro ⟨r, hr, -⟩
    by_contra hfails
    have hfails' : fails 2 0 = true ∨ tl.nextId idCol = none := by
      by_contra hnot
      obtain ⟨h₁, h₂⟩ := not_or.mp hnot
      exact hfails ⟨Bool.eq_false_of_not_eq_true h₁, h₂⟩
    rw [record_of_fails h hfails'] at hr
    simpa using congrArg List.length hr
  · rintro ⟨hf, hid⟩
    obtain ⟨i, hi⟩ := Option.ne_none_iff_exists'.mp hid
    rw [hf, record_of_nextId h hi]
    exact ⟨_, rfl, records_recordRow c approvedStatus _⟩

/-- Where an update fails, nothing is recorded. -/
theorem authorisedEffect_of_fails (tl : Table) {t : Table}
    (h : runPostings eng (fails 1) 0 (updates c) (createdTable eng fails c ta) = (t, false)) :
    ∃ oks, authorisedEffect eng fails c ta tl = ⟨t, tl, -1, oks⟩ := by
  unfold authorisedEffect
  unfold createdTable at h
  dsimp only
  rw [h]
  exact ⟨_, rfl⟩

/-- Where no update fails, the call is recorded. -/
theorem authorisedEffect_of_ok (tl : Table)
    (h : (runPostings eng (fails 1) 0 (updates c) (createdTable eng fails c ta)).2 = true) :
    ∃ oks, authorisedEffect eng fails c ta tl =
      ⟨(runPostings eng (fails 1) 0 (updates c) (createdTable eng fails c ta)).1,
        (record tl (fails 2 0) c approvedStatus).1, 0, oks⟩ := by
  unfold authorisedEffect
  unfold createdTable at h
  dsimp only
  rw [if_pos h]
  exact ⟨_, rfl⟩

/-- **All or nothing**: exactly when the statements that fail leave it so. -/
theorem allOrNothing_iff (h : Schema userCol db ta tl) (hsup : c.Supported)
    (hsrc : Sql.QuoteFree c.src) (hdest : Sql.QuoteFree c.dest) (htoken : 1000 ≤ c.token)
    (hfits : c.TextsFit) : AllOrNothing eng fails db c ↔ Completes eng fails ta tl c := by
  have hc : c.QuoteFree := ⟨hsrc, hdest, supported_quoteFree hsup⟩
  have htoken' : ¬ c.token < 1000 := Int32.not_lt.mpr htoken
  obtain ⟨rc, hret⟩ := exists_ret_of_textsFit eng fails db htoken' hfits
  rw [allOrNothing_iff_effect h (authorised_spec h hc htoken' hret), Completes]
  have hzero : (-1 : Int32) ≠ 0 := by decide
  rcases Bool.eq_false_or_eq_true (fails 1 0) with h₀ | h₀
  · -- the first update fails: what was created changes no balance that was there
    obtain ⟨oks, heffect⟩ := authorisedEffect_of_fails tl (updates_of_fails h₀ c)
    rw [heffect]
    exact iff_of_true (Or.inr ⟨rfl, keepsBalances_created, rfl⟩) (Or.inl h₀)
  · by_cases hcredit : c.txType = bytes "TRANSFER" ∧ fails 1 1 = true
    · -- the credit of a transfer fails: its debit stays
      obtain ⟨htype, h₁⟩ := hcredit
      obtain ⟨oks, heffect⟩ := authorisedEffect_of_fails tl
        (updates_of_fails_credit eng htype h₀ h₁)
      rw [heffect]
      have hnotRun : ¬ UpdatesRun (fails 1) c := fun hrun => by
        rw [hrun.2 htype] at h₁
        cases h₁
      simp [hzero, h₀, htype, h₁, hnotRun, keepsBalances_debit_iff]
    · -- no update fails
      have hrun : UpdatesRun (fails 1) c := ⟨h₀, fun htype =>
        Bool.eq_false_of_not_eq_true fun h₁ => hcredit ⟨htype, h₁⟩⟩
      obtain ⟨oks, heffect⟩ := authorisedEffect_of_ok tl
        (updates_spec eng (createdTable eng fails c ta) hsup hrun).1
      rw [heffect]
      have hnotCredit : ¬ (c.txType = bytes "TRANSFER" ∧ fails 1 1 = true ∧
        ∀ v, balanceOf ta userCol c.src = some v → eng.combine .minus v c.amount.toInt = v) :=
        fun hh => hcredit ⟨hh.1, hh.2.1⟩
      simp only [hzero.symm, false_and, or_false, true_and, h₀, Bool.false_eq_true, false_or,
        hnotCredit, hrun, posted_iff hsup hrun, addsRecord_iff h.logTable]
      tauto

end AllOrNothing

/-- Accounts of one user, with a balance of 500. -/
def aliceAccounts : Table :=
  ⟨[(userCol, .text), (balanceCol, .integer)], .text userCol,
    [rowOf [(userCol, .text (bytes "Alice")), (balanceCol, .int 500)]], 0⟩

/-- The database with these accounts and no transactions. -/
def aliceDb : Db := (Db.empty.setTable accounts aliceAccounts).setTable transactions newLog

theorem schema_aliceDb : Schema userCol aliceDb aliceAccounts newLog where
  extra_eq := rfl
  accounts_eq := (setTable_tables_of_ne _ _ (by decide)).trans (setTable_tables_self ..)
  transactions_eq := setTable_tables_self ..
  accountsTable := ⟨rfl, by decide, by decide, fun hne => absurd rfl hne⟩
  logTable := logTable_new

/-- The second update of the call fails. -/
def creditFails : Nat → Nat → Bool := fun i j => i == 1 && j == 1

theorem allOrNothing_iff_mockCall :
    AllOrNothing plainEngine creditFails aliceDb mockCall ↔
      Completes plainEngine creditFails aliceAccounts newLog mockCall :=
  allOrNothing_iff schema_aliceDb (Or.inl rfl) (by decide) (by decide) (by decide) textsFit_mockCall

/-- The balance of the user. -/
def aliceBalance (db : Option Db) : Option Value :=
  (db.bind fun d => d.tables accounts).bind fun t => balanceOf t userCol (bytes "Alice")

/-- The transfer returns -1, and its debit is gone from the account. -/
theorem not_allOrNothing_mockCall : Schema userCol aliceDb aliceAccounts newLog ∧
    mockCall.Supported ∧ mockCall.QuoteFree ∧ 1000 ≤ mockCall.token ∧ mockCall.TextsFit ∧
    ¬ AllOrNothing plainEngine creditFails aliceDb mockCall := by
  refine ⟨schema_aliceDb, Or.inl rfl, by decide, by decide, textsFit_mockCall, ?_⟩
  rintro ⟨db', ta, ta', tl, tl', hdb', hta, hta', -, -, hcases⟩
  have hret : (bankExecuteTransaction plainEngine creditFails (some aliceDb)
      mockCall).ret.toOption = some (-1) := by
    decide +kernel
  have hbalance : aliceBalance
      (bankExecuteTransaction plainEngine creditFails (some aliceDb) mockCall).db =
        some (.int 400) := by
    decide +kernel
  rcases hcases with ⟨hzero, -⟩ | ⟨-, hkeeps, -⟩
  · rw [hzero] at hret
    exact absurd hret (by decide)
  · have hbefore : balanceOf ta userCol (bytes "Alice") = some (.int 500) := by
      rw [← Option.some.inj (schema_aliceDb.accounts_eq.symm.trans hta)]
      decide
    rw [hdb', aliceBalance, Option.bind_some, hta', Option.bind_some,
      hkeeps (bytes "Alice") _ hbefore] at hbalance
    exact absurd hbalance (by decide)

end BankSel4.Ledger
