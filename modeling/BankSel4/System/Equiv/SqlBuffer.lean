import BankSel4.Gateway.Equiv.Parse
import BankSel4.Ledger.Equiv.Balances
import BankSel4.Ledger.Equiv.Quotes

/-!
# The buffer of the Ledger's texts

`texts` are the texts that a call formats on one path or another, and `LengthsFit` says when all of
them fit `sql`, by the lengths of what is put into them (`texts_fit_iff`).  They fit exactly when
the call does not fault on any path (`texts_fit_iff_ret`).

The gateway does not bound the words that it passes on, short of the length of a request:
`buffersSafe_iff`.
-/

namespace BankSel4.System

open Sql Ledger Gateway

/-- The texts that a call formats, whatever `sqlite3_exec` returns on the way. -/
def texts (c : Ledger.Call) : List SqlText :=
  if c.token < 1000 then [.blocked]
  else [.create] ++
    (if c.txType = bytes "TRANSFER" then [.transfer]
      else if c.txType = bytes "DEPOSIT" then [.deposit]
      else if c.txType = bytes "WITHDRAWAL" then [.withdrawal]
      else []) ++ [.approved]

/-- The text and its terminator are not longer than `sql`. -/
def Fits (c : Ledger.Call) (k : SqlText) : Prop := fitsSql k.format (k.args c)

instance (c : Ledger.Call) (k : SqlText) : Decidable (Fits c k) :=
  inferInstanceAs (Decidable (fitsSql _ _))

/-- The strings and the amount of the call are short enough for its texts. -/
def LengthsFit (c : Ledger.Call) : Prop :=
  let n := (decimal c.amount.toInt).length
  if c.token < 1000 then c.src.length + c.dest.length + c.txType.length + n ≤ 400
  else c.src.length + c.dest.length ≤ 387 ∧
    c.src.length + c.dest.length + c.txType.length + n ≤ 418 ∧
    (c.txType = bytes "TRANSFER" → c.src.length + c.dest.length + 2 * n ≤ 397)

section Lengths

variable {c : Ledger.Call}

/-- The length of a text, short of what is put into it. -/
def fixedLength : SqlText → Nat
  | .blocked => 111
  | .create => 124
  | .transfer => 114
  | .deposit => 57
  | .withdrawal => 57
  | .approved => 93

/-- The pieces of a text have arguments of their types. -/
theorem exists_render (c : Ledger.Call) {k : SqlText} {ps : List Piece}
    (hps : pieces k.format = some ps) : ∃ text, render ps (k.args c) = some text := by
  cases k with
  | blocked =>
    obtain rfl := Option.some.inj (pieces_blocked.symm.trans hps)
    simp [recordPieces, SqlText.args, render]
  | create =>
    obtain rfl := Option.some.inj (pieces_create.symm.trans hps)
    simp [createPieces, SqlText.args, render]
  | transfer =>
    obtain rfl := Option.some.inj (pieces_transfer.symm.trans hps)
    simp [transferPieces, SqlText.args, render]
  | deposit =>
    obtain rfl := Option.some.inj (pieces_deposit.symm.trans hps)
    simp [updatePieces, SqlText.args, render]
  | withdrawal =>
    obtain rfl := Option.some.inj (pieces_withdrawal.symm.trans hps)
    simp [updatePieces, SqlText.args, render]
  | approved =>
    obtain rfl := Option.some.inj (pieces_approved.symm.trans hps)
    simp [recordPieces, SqlText.args, render]

/-- The length of a text. -/
theorem exists_format (c : Ledger.Call) (k : SqlText) : ∃ text,
    format k.format (k.args c) = some text ∧
      text.length = fixedLength k + ((k.args c).map Arg.length).sum := by
  obtain ⟨ps, hps, -, hargs, -⟩ := exists_pieces c k
  have hfixed : (pieces k.format).map textLength = some (fixedLength k) := by
    cases k <;> decide +kernel
  obtain ⟨text, htext⟩ := exists_render c hps
  refine ⟨text, by rw [format, hps, Option.bind_some, htext], ?_⟩
  rw [hps, Option.map_some, Option.some_inj] at hfixed
  rw [length_of_render htext hargs, hfixed]

/-- A text fits by its length. -/
theorem fits_iff {k : SqlText} :
    Fits c k ↔ fixedLength k + ((k.args c).map Arg.length).sum < 512 := by
  obtain ⟨text, htext, hlen⟩ := exists_format c k
  rw [Fits, fitsSql, sprintf, htext]
  dsimp only
  rw [hlen]
  split_ifs with hlt
  · exact iff_of_true rfl hlt
  · exact iff_of_false nofun hlt

/-- **The texts of a call fit** exactly when its lengths do. -/
theorem texts_fit_iff (c : Ledger.Call) : (∀ k ∈ texts c, Fits c k) ↔ LengthsFit c := by
  have hamount := length_decimal_le c.amount
  unfold texts LengthsFit
  dsimp only
  split_ifs with htoken htransfer hdeposit hwithdrawal
  all_goals
    simp only [List.forall_mem_append, List.forall_mem_singleton, fits_iff, fixedLength,
      SqlText.args, List.map_cons, List.map_nil, List.sum_cons, List.sum_nil, Arg.length]
  · omega
  · simp only [htransfer, true_imp_iff]
    omega
  -- the update of a deposit or of a withdrawal is shorter than its record
  · simp only [htransfer, false_imp_iff, and_true]
    omega
  · simp only [htransfer, false_imp_iff, and_true]
    omega
  · simp only [htransfer, false_imp_iff, and_true, List.not_mem_nil, implies_true]
    omega

/-- A call whose texts fit does not fault, whatever the results of `sqlite3_exec`. -/
theorem exists_ret_of_texts_fit (h : ∀ k ∈ texts c, Fits c k) (eng : Engine)
    (fails : Nat → Nat → Bool) (db : Option Db) :
    ∃ rc, (bankExecuteTransaction eng fails db c).ret = .ok rc := by
  obtain _ | db := db
  · exact ⟨-1, rfl⟩
  by_cases htoken : c.token < 1000
  · refine exists_ret_of_blockedFits eng fails db htoken ?_
    rw [texts, if_pos htoken] at h
    simpa only [Fits, SqlText.format, SqlText.args, Call.BlockedFits] using
      h .blocked (List.mem_singleton_self _)
  · rw [texts, if_neg htoken] at h
    simp only [List.forall_mem_append, List.forall_mem_singleton] at h
    obtain ⟨⟨hcreate, hupdate⟩, happroved⟩ := h
    simp only [Fits, SqlText.format, SqlText.args] at hcreate happroved
    refine exists_ret_of_textsFit eng fails db htoken
      ⟨hcreate, fun ht => ?_, fun hd => ?_, fun hw => ?_, happroved⟩
    · rw [if_pos ht, List.forall_mem_singleton] at hupdate
      simpa only [Fits, SqlText.format, SqlText.args] using hupdate
    · rw [if_neg (hd ▸ deposit_ne_transfer), if_pos hd, List.forall_mem_singleton] at hupdate
      simpa only [Fits, SqlText.format, SqlText.args] using hupdate
    · rw [if_neg (hw ▸ withdrawal_ne_transfer), if_neg (hw ▸ withdrawal_ne_deposit), if_pos hw,
        List.forall_mem_singleton] at hupdate
      simpa only [Fits, SqlText.format, SqlText.args] using hupdate

/-- An engine that reports success for what is outside the fragment. -/
def lenient : Engine := ⟨fun _ db _ _ => (db, true), fun _ v _ => v⟩

/-- A database with something else than tables, so that all texts are outside the fragment. -/
def foreign : Db := ⟨fun _ => none, [0]⟩

theorem exec_foreign (fails : Nat → Nat → Bool) (text : Str) (log : List Exec) :
    exec lenient fails text ⟨foreign, log⟩ = (.ok true, ⟨foreign, log ++ [⟨text, true⟩]⟩) := rfl

theorem fits_of_sprintfSql (k : SqlText) {sql : Str} {s s' : Session}
    (h : sprintfSql k.format (k.args c) s = (.ok sql, s')) : s' = s ∧ Fits c k := by
  obtain ⟨htext, hs⟩ := sprintfSql_eq_ok.mp h
  exact ⟨hs, fitsSql_iff.mpr ⟨sql, htext⟩⟩

theorem fits_of_updateText {sql sql' : Str} {s s' : Session}
    (h : updateText c sql s = (.ok sql', s')) :
    s' = s ∧ ∀ k ∈ (if c.txType = bytes "TRANSFER" then [SqlText.transfer]
      else if c.txType = bytes "DEPOSIT" then [.deposit]
      else if c.txType = bytes "WITHDRAWAL" then [.withdrawal]
      else []), Fits c k := by
  unfold updateText at h
  split_ifs at h ⊢
  · rw [List.forall_mem_singleton]
    exact fits_of_sprintfSql .transfer h
  · rw [List.forall_mem_singleton]
    exact fits_of_sprintfSql .deposit h
  · rw [List.forall_mem_singleton]
    exact fits_of_sprintfSql .withdrawal h
  · exact ⟨(Prod.mk.inj h).2.symm, fun k hk => absurd hk List.not_mem_nil⟩

/-- The texts are those of a path: where every `sqlite3_exec` succeeds, the call faults if one of
them does not fit. -/
theorem texts_fit_of_ret {rc : Int32} (fails : Nat → Nat → Bool)
    (hret : (bankExecuteTransaction lenient fails (some foreign) c).ret = .ok rc) :
    ∀ k ∈ texts c, Fits c k := by
  obtain ⟨s, hrun, -⟩ := exists_of_ret hret
  rw [executeTransaction] at hrun
  unfold texts
  split_ifs at hrun with htoken
  · rw [if_pos htoken, List.forall_mem_singleton]
    obtain ⟨sql, s₁, hsql, -⟩ := bind_eq_ok.mp hrun
    exact (fits_of_sprintfSql .blocked hsql).2
  · obtain ⟨created, s₁, hcreated, hrun₁⟩ := bind_eq_ok.mp hrun
    obtain ⟨rfl, hcreate⟩ := fits_of_sprintfSql .create hcreated
    rw [bind_of_ok (exec_foreign fails created [])] at hrun₁
    -- every text is executed with success, so the path goes through all of them
    obtain ⟨updated, s₂, hupdated, hrun₂⟩ := bind_eq_ok.mp hrun₁
    obtain ⟨rfl, hupdate⟩ := fits_of_updateText hupdated
    rw [bind_of_ok (exec_foreign fails updated _), if_pos rfl] at hrun₂
    obtain ⟨approved, s₃, happroved, -⟩ := bind_eq_ok.mp hrun₂
    rw [if_neg htoken, List.forall_mem_append, List.forall_mem_append, List.forall_mem_singleton,
      List.forall_mem_singleton]
    exact ⟨⟨hcreate, hupdate⟩, (fits_of_sprintfSql .approved happroved).2⟩

/-- **A call overruns its buffer** on some path exactly when one of its texts does not fit. -/
theorem texts_fit_iff_ret (c : Ledger.Call) : (∀ k ∈ texts c, Fits c k) ↔
    ∀ eng fails db, ∃ rc, (bankExecuteTransaction eng fails db c).ret = .ok rc := by
  refine ⟨fun h eng fails db => exists_ret_of_texts_fit h eng fails db, fun h => ?_⟩
  obtain ⟨rc, hret⟩ := h lenient noFails (some foreign)
  exact texts_fit_of_ret noFails hret

end Lengths

/-- If the request leads to a call of the Ledger, no `sprintf` of the call leaves its buffer,
whatever the database is and whatever `sqlite3_exec` returns. -/
def BuffersSafe (overflow : Int → Int32) (prev : Mem 512) (request : Str) : Prop :=
  ∀ c, parse overflow (localBuf prev request) = .ok (.call (.bank c)) →
    ∀ eng fails db, ∃ rc, (bankExecuteTransaction eng fails db c).ret = .ok rc

/-- **No text overruns its buffer** exactly when the lengths of the call that the request leads to
fit. -/
theorem buffersSafe_iff (overflow : Int → Int32) (prev : Mem 512) (request : Str) :
    BuffersSafe overflow prev request ↔
      ∀ c, parse overflow (localBuf prev request) = .ok (.call (.bank c)) → LengthsFit c :=
  forall₂_congr fun c _ => (texts_fit_iff_ret c).symm.trans (texts_fit_iff c)

/-- A blocked transaction with a long source. -/
def longTx : Str := bytes "tx 5 " ++ List.replicate 398 97 ++ bytes " b DEPOSIT 1"

/-- The record of the call that it leads to is longer than its buffer. -/
theorem not_buffersSafe_longTx : ¬ BuffersSafe (fun _ => 0) Mem.zero longTx := by
  intro h
  have hparse : parse (fun _ => 0) (localBuf Mem.zero longTx) =
      .ok (.call (.bank ⟨5, List.replicate 398 97, bytes "b", bytes "DEPOSIT", 1⟩)) := by
    rw [parse_localBuf (by decide +kernel) (by decide +kernel)]
    decide +kernel
  have hfits := (texts_fit_iff_ret _).mpr (h _ hparse)
  exact absurd (hfits .blocked (by decide +kernel)) (by decide +kernel)

end BankSel4.System
