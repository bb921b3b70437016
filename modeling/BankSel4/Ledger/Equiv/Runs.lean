import BankSel4.Algorithm.Run
import BankSel4.Ledger.Equiv.Calls

/-!
# Runs of calls

Calls without quotes keep the two tables of the schema, and each of them gives at most one id
(`run_schema`).
-/

namespace BankSel4.Ledger

open Sql

/-! ### Ids -/

theorem foldr_max_le_iff {s b : Int} {l : List Int} :
    l.foldr max s ≤ b ↔ s ≤ b ∧ ∀ i ∈ l, i ≤ b := by
  induction l with
  | nil => simp
  | cons i l ih =>
    rw [List.foldr_cons, max_le_iff, ih, List.forall_mem_cons]
    exact and_left_comm

theorem le_lastId {t : Table} {r : Row} {i : Int} (hr : r ∈ t.rows) (hi : r idCol = .int i) :
    i ≤ t.lastId idCol :=
  (foldr_max_le_iff.mp le_rfl).2 i
    (List.mem_filterMap.mpr ⟨r, hr, by rw [Row.int?, hi]⟩)

theorem nextId_eq_some {t : Table} {i : Int} (h : t.nextId idCol = some i) :
    i = t.lastId idCol + 1 ∧ t.lastId idCol < 2 ^ 63 - 1 := by
  unfold Table.nextId at h
  split_ifs at h with hlt
  exact ⟨(Option.some.inj h).symm, hlt⟩

/-- The largest id after a record is the id of the record. -/
theorem lastId_append {t : Table} {i : Int} (h : t.lastId idCol ≤ i) (r : Row) :
    Table.lastId { t with rows := t.rows ++ [Function.update r idCol (.int i)], seq := i } idCol ≤
      i := by
  refine foldr_max_le_iff.mpr ⟨le_rfl, fun j hj => ?_⟩
  rw [List.filterMap_append, List.mem_append] at hj
  rcases hj with hj | hj
  · exact ((foldr_max_le_iff.mp le_rfl).2 j hj).trans h
  · have hid : Row.int? (Function.update r idCol (.int i)) idCol = some i := by
      rw [Row.int?, Function.update_self]
    simp only [List.filterMap_cons, hid, List.filterMap_nil, List.mem_singleton] at hj
    exact hj.le

theorem lastId_record_le {t : Table} (h : LogTable t) (fails : Bool) (c : Call) (status : Str) :
    (record t fails c status).1.lastId idCol ≤ t.lastId idCol + 1 := by
  by_cases hf : fails = true ∨ t.nextId idCol = none
  · rw [record_of_fails h hf]
    exact Int.le_add_one le_rfl
  · obtain ⟨hf, hid⟩ := not_or.mp hf
    obtain ⟨i, hi⟩ := Option.ne_none_iff_exists'.mp hid
    obtain ⟨rfl, -⟩ := nextId_eq_some hi
    rw [Bool.eq_false_of_not_eq_true hf, record_of_nextId h hi]
    exact lastId_append (by omega) _

/-! ### Runs -/

theorem next_eq_some {eng : Engine} {db db' : Option Db} {c : Call} (h : next eng db c = some db') :
    ∃ rc, (bankExecuteTransaction eng noFails db c).ret = .ok rc ∧
      (bankExecuteTransaction eng noFails db c).db = db' := by
  rw [next, step, Option.map_map, Option.map_eq_some_iff] at h
  obtain ⟨rc, hrc, rfl⟩ := h
  exact ⟨rc, toOption_eq_some.mp hrc, rfl⟩

/-- A call keeps the tables, and gives at most one id. -/
theorem schema_step {eng : Engine} {k : Name} {db : Db} {ta tl : Table} (h : Schema k db ta tl)
    {c : Call} (hc : c.QuoteFree) {db' : Option Db} (hs : next eng (some db) c = some db') :
    ∃ d ta' tl', db' = some d ∧ Schema k d ta' tl' ∧ tl'.lastId idCol ≤ tl.lastId idCol + 1 := by
  obtain ⟨rc, hret, rfl⟩ := next_eq_some hs
  -- a blocked call makes a record, an authorised one none or one
  by_cases htoken : c.token < 1000
  · obtain ⟨⟨d, hd, hschema⟩, -, -⟩ := blocked_spec h hc htoken hret
    exact ⟨d, _, _, hd, hschema, lastId_record_le h.logTable ..⟩
  · by_cases hk : k = userCol
    · subst hk
      obtain ⟨⟨d, hd, hschema⟩, -, -⟩ := authorised_spec h hc htoken hret
      refine ⟨d, _, _, hd, hschema, ?_⟩
      unfold authorisedEffect
      dsimp only
      split_ifs
      · exact lastId_record_le h.logTable ..
      · dsimp only
        omega
    · obtain ⟨⟨d, hd, hschema⟩, -, -⟩ := authorised_spec_of_ne h hk hc htoken hret
      exact ⟨d, _, _, hd, hschema, by dsimp only; omega⟩

/-- **Runs of calls without quotes** keep the tables of the schema. -/
theorem run_schema {eng : Engine} {k : Name} {vol : Db} (hvol : Volume k vol) {db₀ db : Option Db}
    (hinit : preInit eng noFails (some vol) = some db₀) {calls : List Call}
    (hcalls : ∀ c ∈ calls, c.QuoteFree) (hrun : runSteps (next eng) db₀ calls = some db) :
    ∃ d ta tl, db = some d ∧ Schema k d ta tl ∧
      tl.lastId idCol ≤ ((vol.tables transactions).getD newLog).lastId idCol + calls.length := by
  obtain ⟨d₀, hd₀, h₀⟩ := preInit_spec hvol eng
  obtain rfl := Option.some.inj (hinit.symm.trans hd₀)
  refine runSteps_invariant (P := fun _ _ c => c.QuoteFree)
    (I := fun pre db => ∃ d ta tl, db = some d ∧ Schema k d ta tl ∧
      tl.lastId idCol ≤ ((vol.tables transactions).getD newLog).lastId idCol + pre.length)
    ⟨d₀, _, _, rfl, h₀, by simp⟩ ?_ (fun pre c post _ hsplit _ => hcalls c (by simp [hsplit])) hrun
  rintro pre - c db' - ⟨d, ta, tl, rfl, hschema, hid⟩ hc hs
  obtain ⟨d', ta', tl', rfl, hschema', hid'⟩ := schema_step hschema hc hs
  refine ⟨d', ta', tl', rfl, hschema', ?_⟩
  rw [List.length_append, List.length_singleton]
  push_cast
  omega

/-! ### Databases to start from -/

/-- An engine that fails on what the fragment does not cover. -/
def plainEngine : Engine := ⟨fun _ db _ _ => (db, false), fun _ v _ => v⟩

/-- The database that `pre_init` makes on an empty volume. -/
def firstDb : Option Db := (preInit plainEngine noFails (some Db.empty)).getD none

/-- A volume with an empty table of accounts whose key is `user`. -/
def userVolume : Db :=
  Db.empty.setTable accounts ⟨[(userCol, .text), (balanceCol, .integer)], .text userCol, [], 0⟩

theorem volume_user : Volume userCol userVolume where
  extra_eq := rfl
  accountsTable t h := by
    rw [userVolume, setTable_tables_self, Option.some.injEq] at h
    rw [← h]
    exact ⟨rfl, by decide, by decide, fun hne => absurd rfl hne⟩
  no_accounts h := by
    rw [userVolume, setTable_tables_self] at h
    cases h
  logTable t h := by
    rw [userVolume, setTable_tables_of_ne _ _ (by decide)] at h
    cases h

/-- The transfer the client asks for. -/
def mockCall : Call := ⟨1001, bytes "Alice", bytes "Bob", bytes "TRANSFER", 100⟩

theorem textsFit_mockCall : mockCall.TextsFit where
  create := by decide +kernel
  transfer _ := by decide +kernel
  deposit h := absurd h (by decide)
  withdrawal h := absurd h (by decide)
  approved := by decide +kernel

end BankSel4.Ledger
