import BankSel4.Ledger.Equiv.Balances
import BankSel4.Ledger.Equiv.Runs

/-!
# Authorised calls take effect

`TakesEffect eng k db c`: every text of the call succeeds, the call returns 0, and source and
destination exist afterwards, with the balances the type prescribes.  It does exactly when the key
of the accounts is `user`, the column the texts name (`takesEffect_iff_of_schema`).  `pre_init`
calls it `username`, so on an empty volume no call ever takes effect (`takesEffect_iff`).
-/

namespace BankSel4.Ledger

open Sql

/-- The amount debited from the account. -/
def Call.debit (c : Call) (u : Str) : Int := if c.Debits u then c.amount.toInt else 0

/-- The amount credited to the account. -/
def Call.credit (c : Call) (u : Str) : Int := if c.Credits u then c.amount.toInt else 0

/-- The balances of source and destination are integers of 64 bits, and stay so. -/
def Call.HasRoom (c : Call) (t : Table) (k : Name) : Prop :=
  ∀ u, u = c.src ∨ u = c.dest → ∃ n, startBalance t k u = .int n ∧
    fitsInt64 (n - c.debit u) = true ∧ fitsInt64 (n - c.debit u + c.credit u) = true

/-- The call takes effect. -/
def TakesEffect (eng : Engine) (k : Name) (db : Db) (c : Call) : Prop :=
  (bankExecuteTransaction eng noFails (some db) c).ret = .ok 0 ∧
  (∀ x ∈ (bankExecuteTransaction eng noFails (some db) c).log, x.ok = true) ∧
  ∃ db' t t', (bankExecuteTransaction eng noFails (some db) c).db = some db' ∧
    db.tables accounts = some t ∧ db'.tables accounts = some t' ∧
    ∀ u, u = c.src ∨ u = c.dest → ∃ n, startBalance t k u = .int n ∧
      balanceOf t' k u = some (.int (n - c.debit u + c.credit u))

/-- The debit and the credit of integers that stay integers. -/
theorem posted_int {eng : Engine} {c : Call} {u : Str} {n : Int}
    (hdebit : fitsInt64 (n - c.debit u) = true)
    (hcredit : fitsInt64 (n - c.debit u + c.credit u) = true) :
    c.posted eng u (.int n) = .int (n - c.debit u + c.credit u) := by
  have hd : (if c.Debits u then eng.combine .minus (.int n) c.amount.toInt else .int n) =
      .int (n - c.debit u) := by
    unfold Call.debit at hdebit ⊢
    split_ifs at hdebit ⊢
    · exact if_pos hdebit
    · rw [Int.sub_zero]
  rw [Call.posted, hd]
  unfold Call.credit at hcredit ⊢
  split_ifs at hcredit ⊢
  · exact if_pos hcredit
  · rw [Int.add_zero]

section TakesEffect

variable {eng : Engine} {k : Name} {db : Db} {ta tl : Table} {c : Call}

/-- The authorised path returns 0 on the schema with the key `user`, and all its texts succeed. -/
theorem takesEffect_of_user (h : Schema userCol db ta tl) (hsup : c.Supported) (hc : c.QuoteFree)
    (htoken : ¬ c.token < 1000) (hfits : c.TextsFit) (hroom : c.HasRoom ta userCol)
    (hid : tl.lastId idCol < 2 ^ 63 - 1) : TakesEffect eng userCol db c := by
  obtain ⟨rc, hret⟩ := exists_ret_of_textsFit eng noFails db htoken hfits
  obtain ⟨⟨db', hdb', hschema⟩, hrc, hoks⟩ := authorised_spec h hc htoken hret
  have hnext : tl.nextId idCol = some (tl.lastId idCol + 1) := if_pos hid
  obtain ⟨hupdated, hbalance⟩ := updates_spec eng
    (runPostings eng (noFails 0) 0 (creations c) ta).1 hsup
    (⟨rfl, fun _ => rfl⟩ : UpdatesRun (noFails 1) c)
  have hrec : (record tl (noFails 2 0) c approvedStatus).2 = true :=
    congrArg Prod.snd (record_of_nextId h.logTable hnext c approvedStatus)
  have heffect : authorisedEffect eng noFails c ta tl =
      ⟨(runPostings eng (noFails 1) 0 (updates c)
        (runPostings eng (noFails 0) 0 (creations c) ta).1).1,
        (record tl (noFails 2 0) c approvedStatus).1, 0, [true, true, true, true, true]⟩ := by
    rw [authorisedEffect]
    dsimp only
    rw [if_pos hupdated, hrec, runPostings_noFails]
    rfl
  rw [heffect] at hrc hoks hschema
  refine ⟨hrc, fun x hx => ?_, db', ta, _, hdb', h.accounts_eq, hschema.accounts_eq, fun u hu => ?_⟩
  · have hmem := List.mem_map_of_mem (f := Exec.ok) hx
    rw [hoks] at hmem
    simpa using hmem
  · obtain ⟨n, hn, hdebit, hcredit⟩ := hroom u hu
    have hcreated : Created (noFails 0) c u := ⟨rfl, hu.imp_right fun hd => ⟨hd, rfl⟩⟩
    have hstart : balanceOf (runPostings eng (noFails 0) 0 (creations c) ta).1 userCol u =
        some (.int n) := by
      rw [balanceOf_creations, if_pos hcreated, ← hn, startBalance]
      cases balanceOf ta userCol u <;> rfl
    refine ⟨n, hn, ?_⟩
    rw [hbalance, hstart, Option.map_some, posted_int hdebit hcredit]

/-- **Effect of a call**, from any database with the two tables: a call takes effect exactly when
the key of the accounts is `user`. -/
theorem takesEffect_iff_of_schema (h : Schema k db ta tl) (hsup : c.Supported) (hc : c.QuoteFree)
    (htoken : ¬ c.token < 1000) (hfits : c.TextsFit)
    (hroom : k = userCol → c.HasRoom ta k ∧ tl.lastId idCol < 2 ^ 63 - 1) :
    TakesEffect eng k db c ↔ k = userCol := by
  constructor
  · rintro ⟨hret, -⟩
    -- with another key the updates fail, and the call returns -1
    by_contra hk
    obtain ⟨-, hrc, -⟩ := authorised_spec_of_ne h hk hc htoken hret
    rw [hret] at hrc
    have hne : (0 : Int32) ≠ -1 := by decide
    exact hne (Except.ok.inj hrc)
  · rintro rfl
    exact takesEffect_of_user h hsup hc htoken hfits (hroom rfl).1 (hroom rfl).2

end TakesEffect

/-- **Calls take effect only where the key is `user`.**  In a run from an empty volume, a further
call takes effect exactly when the key of the accounts it finds is `user`; after calls without
quotes it never does. -/
theorem takesEffect_iff {eng : Engine} {db₀ : Option Db}
    (hinit : preInit eng noFails (some Db.empty) = some db₀) {calls : List Call} {db : Db}
    (hrun : runSteps (next eng) db₀ calls = some (some db)) {c : Call} (hsup : c.Supported)
    (hsrc : Sql.QuoteFree c.src) (hdest : Sql.QuoteFree c.dest) (htoken : 1000 ≤ c.token)
    (hfits : c.TextsFit) :
    (∀ k ta tl, Schema k db ta tl →
      (k = userCol → c.HasRoom ta k ∧ tl.lastId idCol < 2 ^ 63 - 1) →
      (TakesEffect eng k db c ↔ k = userCol)) ∧
    ((∀ x ∈ calls, x.QuoteFree) → ¬ TakesEffect eng (bytes "username") db c) := by
  have hc : c.QuoteFree := ⟨hsrc, hdest, supported_quoteFree hsup⟩
  have htoken' : ¬ c.token < 1000 := Int32.not_lt.mpr htoken
  refine ⟨fun k ta tl h hroom => takesEffect_iff_of_schema h hsup hc htoken' hfits hroom,
    fun hcalls heffect => ?_⟩
  have hne : bytes "username" ≠ userCol := by decide
  obtain ⟨d, ta, tl, hd, h, -⟩ := run_schema volume_empty hinit hcalls hrun
  obtain rfl := Option.some.inj hd
  exact hne ((takesEffect_iff_of_schema h hsup hc htoken' hfits fun hk => absurd hk hne).mp heffect)

theorem takesEffect_iff_mockCall : ∃ db, firstDb = some db ∧
    (∀ k ta tl, Schema k db ta tl →
      (k = userCol → mockCall.HasRoom ta k ∧ tl.lastId idCol < 2 ^ 63 - 1) →
      (TakesEffect plainEngine k db mockCall ↔ k = userCol)) ∧
    ((∀ x ∈ ([] : List Call), x.QuoteFree) →
      ¬ TakesEffect plainEngine (bytes "username") db mockCall) :=
  ⟨_, rfl, takesEffect_iff rfl (rfl : runSteps _ _ [] = _) (Or.inl rfl) (by decide) (by decide)
    (by decide) textsFit_mockCall⟩

/-- The first call of the client returns -1. -/
theorem not_takesEffect_mockCall : preInit plainEngine noFails (some Db.empty) = some firstDb ∧
    mockCall.Supported ∧ mockCall.QuoteFree ∧ 1000 ≤ mockCall.token ∧ mockCall.TextsFit ∧
    ∀ db, firstDb = some db → ¬ TakesEffect plainEngine (bytes "username") db mockCall := by
  refine ⟨rfl, Or.inl rfl, by decide, by decide, textsFit_mockCall, ?_⟩
  rintro db hdb ⟨hret, -⟩
  have hrefused : (bankExecuteTransaction plainEngine noFails firstDb mockCall).ret.toOption =
      some (-1) := by
    decide +kernel
  rw [hdb, hret] at hrefused
  exact absurd hrefused (by decide)

end BankSel4.Ledger
