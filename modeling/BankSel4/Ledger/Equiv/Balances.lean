import BankSel4.Ledger.Equiv.Calls

/-!
# Balances

`balanceOf t u` is the balance of the account `u`.  A posting reaches the account it names and no
other (`balanceOf_create`, `balanceOf_add`).  So the creations of a call leave the balances there
are and open new accounts at 0 (`balanceOf_creations`), and its updates, when none fails, change a
balance by the debit and the credit the type prescribes (`updates_spec`).
-/

namespace BankSel4.Ledger

open Sql

/-- The balance of an account, where the key of the accounts is `k`. -/
def balanceOf (t : Table) (k : Name) (u : Str) : Option Value :=
  (t.rows.find? fun r => r k == .text u).map fun r => r balanceCol

/-- The balance before a call: 0 for a new account. -/
def startBalance (t : Table) (k : Name) (u : Str) : Value := (balanceOf t k u).getD (.int 0)

theorem hasValue_iff {t : Table} {u : Str} :
    t.hasValue userCol (.text u) = true ↔ (balanceOf t userCol u).isSome = true := by
  rw [Table.hasValue, balanceOf, Option.isSome_map, List.find?_isSome, List.any_eq_true]

/-- A creation opens the account, unless it exists. -/
theorem balanceOf_create (eng : Engine) (t : Table) (u w : Str) :
    balanceOf ((Posting.create u).run eng t) userCol w =
      (balanceOf t userCol w).or (if w = u then some (.int 0) else none) := by
  -- the account exists, or its row is put behind the others
  rw [Posting.run]
  split_ifs with hu hw hw
  · obtain ⟨v, hv⟩ := Option.isSome_iff_exists.mp (hasValue_iff.mp hu)
    rw [hw, hv]
    rfl
  · rw [Option.or_none]
  all_goals
    rw [balanceOf, balanceOf, List.find?_append, Option.map_or]
    congr 1
  · subst hw
    simp only [List.find?_cons, List.find?_nil]
    have : (rowOf [(userCol, .text w), (balanceCol, .int 0)] userCol == .text w) = true := by
      simp [rowOf, Literal.value]
    rw [this]
    rfl
  · have : (rowOf [(userCol, .text u), (balanceCol, .int 0)] userCol == .text w) = false := by
      simp [rowOf, Literal.value, Ne.symm hw]
    rw [List.find?_cons, this]
    rfl

/-- An update does not touch the names. -/
theorem updateRow_user (eng : Engine) (sign : Sign) (n : Int) (u : Str) (r : Row) :
    updateRow eng balanceCol sign n userCol u r userCol = r userCol := by
  unfold updateRow
  split_ifs
  · exact Function.update_of_ne (by decide) ..
  · rfl

/-- An update reaches the account it names. -/
theorem balanceOf_add (eng : Engine) (t : Table) (sign : Sign) (n : Int) (u w : Str) :
    balanceOf ((Posting.add sign n u).run eng t) userCol w =
      (balanceOf t userCol w).map fun v => if w = u then eng.combine sign v n else v := by
  have hpred : ((fun r : Row => r userCol == .text w) ∘
      updateRow eng balanceCol sign n userCol u) = fun r : Row => r userCol == .text w :=
    funext fun r => by rw [Function.comp_apply, updateRow_user]
  rw [Posting.run, balanceOf, balanceOf, List.find?_map, hpred, Option.map_map, Option.map_map]
  refine Option.map_congr fun r hr => ?_
  have hrw : r userCol = .text w := by simpa using List.find?_some hr
  simp only [Function.comp_apply, updateRow, hrw, Value.text.injEq]
  split_ifs
  · exact Function.update_self ..
  · rfl

/-! ### The balances a call prescribes -/

/-- The type has a debit of the source, and the account is the source. -/
def Call.Debits (c : Call) (u : Str) : Prop :=
  (c.txType = bytes "TRANSFER" ∨ c.txType = bytes "WITHDRAWAL") ∧ u = c.src

/-- The type has a credit of the destination, and the account is the destination. -/
def Call.Credits (c : Call) (u : Str) : Prop :=
  (c.txType = bytes "TRANSFER" ∨ c.txType = bytes "DEPOSIT") ∧ u = c.dest

/-- One of the three types. -/
def Call.Supported (c : Call) : Prop :=
  c.txType = bytes "TRANSFER" ∨ c.txType = bytes "DEPOSIT" ∨ c.txType = bytes "WITHDRAWAL"

instance (c : Call) (u : Str) : Decidable (c.Debits u) := inferInstanceAs (Decidable (_ ∧ _))
instance (c : Call) (u : Str) : Decidable (c.Credits u) := inferInstanceAs (Decidable (_ ∧ _))
instance (c : Call) : Decidable c.Supported := inferInstanceAs (Decidable (_ ∨ _))

theorem supported_quoteFree {c : Call} (hsup : c.Supported) : Sql.QuoteFree c.txType := by
  rcases hsup with h | h | h <;> rw [h] <;> decide

/-- The balance that the debit and the credit make of a balance. -/
def Call.posted (c : Call) (eng : Engine) (u : Str) (v : Value) : Value :=
  let debited := if c.Debits u then eng.combine .minus v c.amount.toInt else v
  if c.Credits u then eng.combine .plus debited c.amount.toInt else debited

/-! ### The texts of a call -/

/-- The account-creation text has reached the creation of the account. -/
def Created (fails : Nat → Bool) (c : Call) (u : Str) : Prop :=
  fails 0 = false ∧ (u = c.src ∨ u = c.dest ∧ fails 1 = false)

instance (fails : Nat → Bool) (c : Call) (u : Str) : Decidable (Created fails c u) :=
  inferInstanceAs (Decidable (_ ∧ _))

/-- The creations leave the balances there are, and open the accounts they reach at 0. -/
theorem balanceOf_creations (eng : Engine) (fails : Nat → Bool) (c : Call) (t : Table) (u : Str) :
    balanceOf (runPostings eng fails 0 (creations c) t).1 userCol u =
      (balanceOf t userCol u).or (if Created fails c u then some (.int 0) else none) := by
  unfold creations Created
  rcases Bool.eq_false_or_eq_true (fails 0) with h₀ | h₀
  · simp [runPostings, h₀]
  · rcases Bool.eq_false_or_eq_true (fails 1) with h₁ | h₁
    · simp [runPostings, h₀, h₁, balanceOf_create]
    · simp only [runPostings, h₀, h₁, Bool.false_eq_true, if_false, balanceOf_create,
        Option.or_assoc]
      congr 1
      by_cases hs : u = c.src
      · simp [hs]
      · simp [hs]

/-! ### Types -/

theorem deposit_ne_transfer : bytes "DEPOSIT" ≠ bytes "TRANSFER" := by decide
theorem withdrawal_ne_transfer : bytes "WITHDRAWAL" ≠ bytes "TRANSFER" := by decide
theorem withdrawal_ne_deposit : bytes "WITHDRAWAL" ≠ bytes "DEPOSIT" := by decide

theorem updates_transfer {c : Call} (h : c.txType = bytes "TRANSFER") :
    updates c = [.add .minus c.amount.toInt c.src, .add .plus c.amount.toInt c.dest] := by
  rw [updates, updates?, if_pos h]
  rfl

theorem updates_deposit {c : Call} (h : c.txType = bytes "DEPOSIT") :
    updates c = [.add .plus c.amount.toInt c.dest] := by
  rw [updates, updates?, if_neg (h ▸ deposit_ne_transfer), if_pos h]
  rfl

theorem updates_withdrawal {c : Call} (h : c.txType = bytes "WITHDRAWAL") :
    updates c = [.add .minus c.amount.toInt c.src] := by
  rw [updates, updates?, if_neg (h ▸ withdrawal_ne_transfer), if_neg (h ▸ withdrawal_ne_deposit),
    if_pos h]
  rfl

section Updates

variable {eng : Engine} {fails : Nat → Bool} {c : Call} {t : Table}

/-- No update of the call fails. -/
def UpdatesRun (fails : Nat → Bool) (c : Call) : Prop :=
  fails 0 = false ∧ (c.txType = bytes "TRANSFER" → fails 1 = false)

theorem updates_of_fails (h : fails 0 = true) (c : Call) :
    runPostings eng fails 0 (updates c) t = (t, false) := by
  obtain ⟨p, ps, hps⟩ := exists_updates_eq_cons c
  rw [hps, runPostings, if_pos h]

/-- A transfer whose credit fails leaves its debit. -/
theorem updates_of_fails_credit (eng : Engine) (htype : c.txType = bytes "TRANSFER")
    (h₀ : fails 0 = false) (h₁ : fails 1 = true) : runPostings eng fails 0 (updates c) t =
      ((Posting.add .minus c.amount.toInt c.src).run eng t, false) := by
  simp [updates_transfer htype, runPostings, h₀, h₁]

/-- Updates that do not fail post the debit and the credit. -/
theorem updates_spec (eng : Engine) (t : Table) (hc : c.Supported) (h : UpdatesRun fails c) :
    (runPostings eng fails 0 (updates c) t).2 = true ∧ ∀ u,
      balanceOf (runPostings eng fails 0 (updates c) t).1 userCol u =
        (balanceOf t userCol u).map (c.posted eng u) := by
  obtain ⟨h₀, h₁⟩ := h
  unfold Call.posted Call.Debits Call.Credits
  rcases hc with htype | htype | htype
  · rw [updates_transfer htype]
    refine ⟨by simp [runPostings, h₀, h₁ htype], fun u => ?_⟩
    simp [htype, runPostings, h₀, h₁ htype, balanceOf_add]
    rfl
  · rw [updates_deposit htype]
    refine ⟨by simp [runPostings, h₀], fun u => ?_⟩
    simp [htype, runPostings, h₀, balanceOf_add, deposit_ne_transfer, withdrawal_ne_deposit.symm]
  · rw [updates_withdrawal htype]
    refine ⟨by simp [runPostings, h₀], fun u => ?_⟩
    simp [htype, runPostings, h₀, balanceOf_add, withdrawal_ne_transfer, withdrawal_ne_deposit]

end Updates

end BankSel4.Ledger
