import BankSel4.Ledger.Equiv.AllOrNothing
import BankSel4.Ledger.Equiv.Audit
import BankSel4.Ledger.Equiv.Quotes

/-!
# Types of transactions that are approved

`KnownTypesOnly`: a call executes its account-creation text once, it is approved exactly when its
type is known and the update for that type was executed, and a call of any other type is refused.

The update text is formatted into the buffer that still holds the account-creation text, and what is
in the buffer is executed whether or not a type was recognised.  So a call of an unknown type
executes the account creation a second time, and is approved like any other (`unknownType_spec`):
`knownTypesOnly_iff`.
-/

namespace BankSel4.Ledger

open Sql

/-- The update for the type of the call, if the type is known. -/
def Call.typeText? (c : Call) : Option SqlText :=
  if c.txType = bytes "TRANSFER" then some .transfer
  else if c.txType = bytes "DEPOSIT" then some .deposit
  else if c.txType = bytes "WITHDRAWAL" then some .withdrawal
  else none

/-- How often the call has executed the text `k`. -/
def executions (out : Outcome) (c : Call) (k : SqlText) : Nat :=
  (out.log.map Exec.text).countP fun text =>
    (sprintf 512 k.format (k.args c)).toOption == some text

/-- The approved rows of a table. -/
def approvedRows (t : Table) : List Row := t.rows.filter isApproved

/-- The call is approved exactly for its type, and no text of it runs twice. -/
def KnownTypesOnly (eng : Engine) (db : Db) (c : Call) : Prop :=
  ∃ out db' ta ta' tl tl', bankExecuteTransaction eng noFails (some db) c = out ∧
    out.db = some db' ∧ db.tables accounts = some ta ∧ db'.tables accounts = some ta' ∧
    db.tables transactions = some tl ∧ db'.tables transactions = some tl' ∧
    executions out c .create = 1 ∧
    (out.ret = .ok 0 ∧ AddsRecord c tl tl' ↔ ∃ k, c.typeText? = some k ∧ 0 < executions out c k) ∧
    (c.typeText? = none →
      out.ret = .ok (-1) ∧ KeepsBalances ta ta' ∧ approvedRows tl' = approvedRows tl)

section Types

variable {eng : Engine} {db : Db} {ta tl : Table} {c : Call}

/-! ### The update of a type -/

theorem typeText?_eq_none_iff : c.typeText? = none ↔ ¬ c.Supported := by
  unfold Call.typeText? Call.Supported
  split_ifs with h₁ h₂ h₃ <;> simp [*]

/-- What the business logic executes: the update for the type, or the text before it. -/
theorem updateText_cases {sql sql' : Str} {s s' : Session}
    (h : updateText c sql s = (.ok sql', s')) :
    s' = s ∧ ((∃ k, c.typeText? = some k ∧ sprintf 512 k.format (k.args c) = .ok sql') ∨
      (c.typeText? = none ∧ sql' = sql)) := by
  unfold updateText at h
  unfold Call.typeText?
  split_ifs at h ⊢ with htransfer hdeposit hwithdrawal
  · obtain ⟨htext, rfl⟩ := sprintfSql_eq_ok.mp h
    exact ⟨rfl, Or.inl ⟨.transfer, rfl, htext⟩⟩
  · obtain ⟨htext, rfl⟩ := sprintfSql_eq_ok.mp h
    exact ⟨rfl, Or.inl ⟨.deposit, rfl, htext⟩⟩
  · obtain ⟨htext, rfl⟩ := sprintfSql_eq_ok.mp h
    exact ⟨rfl, Or.inl ⟨.withdrawal, rfl, htext⟩⟩
  · obtain ⟨htext, rfl⟩ := Prod.mk.inj h
    exact ⟨rfl, Or.inr ⟨rfl, (Except.ok.inj htext).symm⟩⟩

/-! ### The texts in the log -/

theorem exec_log {fails : Nat → Nat → Bool} {text : Str} {s s' : Session} {b : Bool}
    (h : exec eng fails text s = (.ok b, s')) :
    s'.log.map Exec.text = s.log.map Exec.text ++ [text] := by
  obtain ⟨-, rfl⟩ := Prod.mk.inj h
  rw [List.map_append]
  rfl

/-- A call that returns 0 has executed five texts. -/
theorem exists_log (htoken : ¬ c.token < 1000)
    (hret : (bankExecuteTransaction eng noFails (some db) c).ret = .ok 0) :
    ∃ created updated approved, sprintf 512 createFormat [.str c.src, .str c.dest] = .ok created ∧
      ((∃ k, c.typeText? = some k ∧ sprintf 512 k.format (k.args c) = .ok updated) ∨
        (c.typeText? = none ∧ updated = created)) ∧
      sprintf 512 approvedFormat
        [.str c.src, .str c.dest, .str c.txType, .int c.amount.toInt] = .ok approved ∧
      (bankExecuteTransaction eng noFails (some db) c).log.map Exec.text =
        [created, updated, approved, dumpLogText, dumpAccountsText] := by
  obtain ⟨s, hrun, hout⟩ := exists_of_ret hret
  obtain ⟨created, updated, b₁, b₂, s₁, t₁, s₂, htext₁, hexec₁, hupdated, hexec₂, hrest⟩ :=
    executeTransaction_cases htoken hrun
  obtain ⟨rfl, hupdate⟩ := updateText_cases hupdated
  rcases hrest with ⟨-, hrc, -⟩ | ⟨-, approved, b₃, s₃, htext₃, hexec₃, hdump⟩
  · exact absurd hrc (by decide)
  · obtain ⟨b₄, s₄, hexec₄, hdump₁⟩ := bind_eq_ok.mp hdump
    obtain ⟨b₅, s₅, hexec₅, hdump₂⟩ := bind_eq_ok.mp hdump₁
    obtain ⟨-, rfl⟩ := Prod.mk.inj hdump₂
    refine ⟨created, updated, approved, htext₁, hupdate, htext₃, ?_⟩
    rw [hout, exec_log hexec₅, exec_log hexec₄, exec_log hexec₃, exec_log hexec₂, exec_log hexec₁]
    rfl

theorem quoteFree_of_mem_args (hc : c.QuoteFree) {k : SqlText} {s : Str}
    (hs : Arg.str s ∈ k.args c) : Sql.QuoteFree s := by
  have hcases : s = c.src ∨ s = c.dest ∨ s = c.txType := by
    cases k <;> simp [SqlText.args] at hs <;> tauto
  rcases hcases with rfl | rfl | rfl
  · exact hc.1
  · exact hc.2.1
  · exact hc.2.2

/-- Without quotes, a text is the statements that are meant. -/
theorem statements_text (hc : c.QuoteFree) {k : SqlText} {text : Str}
    (h : sprintf 512 k.format (k.args c) = .ok text) :
    statements names text = some (k.stmts c) := by
  obtain ⟨ps, hps, -, -, hscan⟩ := exists_pieces c k
  exact statements_of_sprintf h (fun s hs => quoteFree_of_mem_args hc hs) hps hscan
    (parse_tokens c k)

/-- The account creation differs from every other text a call executes. -/
theorem stmts_ne_create {k : SqlText} (hk : k ≠ .create) :
    k.stmts c ≠ SqlText.create.stmts c := by
  cases k with
  | create => exact absurd rfl hk
  | _ => simp [SqlText.stmts, Posting.stmt, recordStmt]

theorem typeText?_ne_create {k : SqlText} (h : c.typeText? = some k) : k ≠ .create := by
  unfold Call.typeText? at h
  split_ifs at h <;> cases h <;> simp

/-- The account creation is executed once for a known type, and twice for another. -/
theorem executions_create (hc : c.QuoteFree) (htoken : ¬ c.token < 1000)
    (hret : (bankExecuteTransaction eng noFails (some db) c).ret = .ok 0) :
    executions (bankExecuteTransaction eng noFails (some db) c) c .create =
      if c.Supported then 1 else 2 := by
  obtain ⟨created, updated, approved, hcreated, hupdated, happroved, hlog⟩ := exists_log htoken hret
  have hst := statements_text (k := .create) hc hcreated
  have hne : ∀ {text stmts}, statements names text = some stmts → stmts ≠ SqlText.create.stmts c →
      text ≠ created := by
    rintro text stmts htext hstmts rfl
    exact hstmts (Option.some.inj (htext.symm.trans hst))
  have h₃ : approved ≠ created :=
    hne (statements_text (k := .approved) hc happroved) (stmts_ne_create (by decide))
  have h₄ : dumpLogText ≠ created :=
    hne statements_dumpLog (by simp [SqlText.stmts, Posting.stmt])
  have h₅ : dumpAccountsText ≠ created :=
    hne statements_dumpAccounts (by simp [SqlText.stmts, Posting.stmt])
  have hsome : (sprintf 512 SqlText.create.format (SqlText.create.args c)).toOption =
      some created := toOption_eq_some.mpr hcreated
  unfold executions
  rw [hlog, hsome]
  rcases hupdated with ⟨k, hk, htext⟩ | ⟨hk, rfl⟩
  · have h₂ : updated ≠ created := hne (statements_text hc htext)
      (stmts_ne_create (typeText?_ne_create hk))
    have hsup : c.Supported := by
      by_contra hsup
      rw [typeText?_eq_none_iff.mpr hsup] at hk
      cases hk
    simp [hsup, h₂.symm, h₃.symm, h₄.symm, h₅.symm]
  · simp [typeText?_eq_none_iff.mp hk, h₃.symm, h₄.symm, h₅.symm]

/-- The update of a known type is executed. -/
theorem executions_typeText (htoken : ¬ c.token < 1000)
    (hret : (bankExecuteTransaction eng noFails (some db) c).ret = .ok 0) {k : SqlText}
    (hk : c.typeText? = some k) :
    0 < executions (bankExecuteTransaction eng noFails (some db) c) c k := by
  obtain ⟨created, updated, approved, -, hupdated, -, hlog⟩ := exists_log htoken hret
  rcases hupdated with ⟨k', hk', htext⟩ | ⟨hnone, -⟩
  · obtain rfl := Option.some.inj (hk.symm.trans hk')
    refine List.countP_pos_iff.mpr ⟨updated, by rw [hlog]; simp, ?_⟩
    rw [toOption_eq_some.mpr htext]
    exact beq_self_eq_true _
  · rw [hnone] at hk
    cases hk

/-! ### Approval -/

/-- An authorised call without failures returns 0 and adds its approved record, of whatever type. -/
theorem approved_spec (h : Schema userCol db ta tl) (hc : c.QuoteFree) (htoken : ¬ c.token < 1000)
    (hfits : c.TextsFit) (hok : TextsOk eng (some db) c) :
    (bankExecuteTransaction eng noFails (some db) c).ret = .ok 0 ∧
      ∃ db' ta' tl', (bankExecuteTransaction eng noFails (some db) c).db = some db' ∧
        db'.tables accounts = some ta' ∧ db'.tables transactions = some tl' ∧
        AddsRecord c tl tl' := by
  obtain ⟨rc, hret⟩ := exists_ret_of_textsFit eng noFails db htoken hfits
  have hout := authorised_spec h hc htoken hret
  rw [authorisedEffect_noFails htoken] at hout
  have hrec := textsOk_oks hok hout (record tl false c approvedStatus).2 (by simp)
  obtain ⟨⟨db', hdb', hschema⟩, hrc, -⟩ := hout
  refine ⟨hrc, db', _, _, hdb', hschema.accounts_eq, hschema.transactions_eq, ?_⟩
  have hrows := congrArg Table.rows (record_of_ok h.logTable hrec)
  exact ⟨_, hrows, records_recordRow c approvedStatus _⟩

/-- **Only known types are approved**, and no text runs twice, exactly when the type is known. -/
theorem knownTypesOnly_iff (h : Schema userCol db ta tl) (htoken : 1000 ≤ c.token)
    (hc : c.QuoteFree) (hfits : c.TextsFit) (hok : TextsOk eng (some db) c) :
    KnownTypesOnly eng db c ↔ c.Supported := by
  have htoken' : ¬ c.token < 1000 := Int32.not_lt.mpr htoken
  obtain ⟨hret, db', ta', tl', hdb', hta', htl', hadds⟩ := approved_spec h hc htoken' hfits hok
  have hcreate := executions_create hc htoken' hret
  constructor
  · rintro ⟨out, -, -, -, -, -, rfl, -, -, -, -, -, honce, -⟩
    by_contra hsup
    rw [hcreate, if_neg hsup] at honce
    exact absurd honce (by decide)
  · intro hsup
    have hknown : c.typeText? ≠ none := fun hnone => typeText?_eq_none_iff.mp hnone hsup
    obtain ⟨k, hk⟩ := Option.ne_none_iff_exists'.mp hknown
    refine ⟨_, db', ta, ta', tl, tl', rfl, hdb', h.accounts_eq, hta', h.transactions_eq, htl',
      hcreate.trans (if_pos hsup), ?_, fun hnone => absurd hnone hknown⟩
    exact iff_of_true ⟨hret, hadds⟩ ⟨k, hk, executions_typeText htoken' hret hk⟩

end Types

theorem knownTypesOnly_iff_mockCall :
    KnownTypesOnly plainEngine aliceDb mockCall ↔ mockCall.Supported :=
  knownTypesOnly_iff schema_aliceDb (by decide) (by decide) textsFit_mockCall (by decide +kernel)

/-- A transfer, but for the letters of its type. -/
def lowerCaseCall : Call := ⟨1001, bytes "Alice", bytes "Bob", bytes "transfer", 100⟩

theorem textsFit_lowerCaseCall : lowerCaseCall.TextsFit where
  create := by decide +kernel
  transfer h := absurd h (by decide)
  deposit h := absurd h (by decide)
  withdrawal h := absurd h (by decide)
  approved := by decide +kernel

/-- The call returns 0, where it should return -1. -/
theorem not_knownTypesOnly_lowerCaseCall : Schema userCol aliceDb aliceAccounts newLog ∧
    1000 ≤ lowerCaseCall.token ∧ lowerCaseCall.QuoteFree ∧ lowerCaseCall.TextsFit ∧
    TextsOk plainEngine (some aliceDb) lowerCaseCall ∧
    ¬ KnownTypesOnly plainEngine aliceDb lowerCaseCall := by
  refine ⟨schema_aliceDb, by decide, by decide, textsFit_lowerCaseCall, by decide +kernel, ?_⟩
  rintro ⟨out, db', ta, ta', tl, tl', rfl, -, -, -, -, -, -, -, hunknown⟩
  have hret : (bankExecuteTransaction plainEngine noFails (some aliceDb)
      lowerCaseCall).ret.toOption = some 0 := by
    decide +kernel
  obtain ⟨hrefused, -⟩ := hunknown (by decide)
  rw [hrefused] at hret
  exact absurd hret (by decide)

end BankSel4.Ledger
