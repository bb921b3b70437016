import BankSel4.Algorithm.Accounts
import BankSel4.Ledger.Equiv.Balances
import BankSel4.Ledger.Equiv.Blocked

/-!
# The transactions explain the accounts

The abstract bank is a book of `Accounts`, to which entries are posted: `replay`.  The table of
accounts stands for a book (`Represents`), and a posting that stays in 64 bits does to the table
what it does to the book (`Represents.run`).  An authorised call makes the postings of its own
entry, and leaves that entry as an approved row; a blocked call does neither (`audited_step`).

So after any run the approved transactions, replayed in the order of their ids, give the accounts:
`audit`.  What is in the accounts is what was deposited less what was withdrawn (`total_replay`).
-/

namespace BankSel4.Ledger

open Sql

/-! ### The abstract bank -/

/-- A transaction. -/
structure Entry where
  src : Str
  dest : Str
  txType : Str
  amount : Int
  deriving DecidableEq, Repr

/-- Create source and destination if they are absent, and apply the transaction. -/
def Entry.apply (e : Entry) (a : Accounts Str) : Accounts Str :=
  let a := (a.create e.src).create e.dest
  if e.txType = bytes "TRANSFER" then (a.add e.src (-e.amount)).add e.dest e.amount
  else if e.txType = bytes "DEPOSIT" then a.add e.dest e.amount
  else if e.txType = bytes "WITHDRAWAL" then a.add e.src (-e.amount)
  else a

/-- The accounts after the transactions, from none. -/
def replay (es : List Entry) : Accounts Str := es.foldl (fun a e => e.apply a) Accounts.empty

/-- The sum of the amounts of the transactions of a type. -/
def sumOf (type : String) (es : List Entry) : Int :=
  ((es.filter fun e => e.txType == bytes type).map Entry.amount).sum

theorem sumOf_singleton (type : String) (e : Entry) :
    sumOf type [e] = if e.txType = bytes type then e.amount else 0 := by
  unfold sumOf
  split_ifs with h
  · simp [h]
  · simp [h]

theorem total_apply (e : Entry) (a : Accounts Str) :
    (e.apply a).total = a.total + sumOf "DEPOSIT" [e] - sumOf "WITHDRAWAL" [e] := by
  have hsrc : e.src ∈ ((a.create e.src).create e.dest).names :=
    Accounts.mem_names_create_of_mem (Accounts.mem_names_create ..) _
  have hdest : e.dest ∈ ((a.create e.src).create e.dest).names := Accounts.mem_names_create ..
  have htotal : ((a.create e.src).create e.dest).total = a.total := by
    rw [Accounts.total_create, Accounts.total_create]
  unfold Entry.apply
  dsimp only
  split_ifs with htransfer hdeposit hwithdrawal
  · have hdest' : e.dest ∈ (((a.create e.src).create e.dest).add e.src (-e.amount)).names := by
      rwa [Accounts.names_add]
    rw [Accounts.total_add hdest', Accounts.total_add hsrc, htotal, sumOf_singleton,
      sumOf_singleton, if_neg (htransfer ▸ deposit_ne_transfer.symm),
      if_neg (htransfer ▸ withdrawal_ne_transfer.symm)]
    omega
  · rw [Accounts.total_add hdest, htotal, sumOf_singleton, sumOf_singleton, if_pos hdeposit,
      if_neg (hdeposit ▸ withdrawal_ne_deposit.symm)]
    omega
  · rw [Accounts.total_add hsrc, htotal, sumOf_singleton, sumOf_singleton, if_neg hdeposit,
      if_pos hwithdrawal]
    omega
  · rw [htotal, sumOf_singleton, sumOf_singleton, if_neg hdeposit, if_neg hwithdrawal]
    omega

theorem replay_append (es : List Entry) (e : Entry) : replay (es ++ [e]) = e.apply (replay es) := by
  rw [replay, List.foldl_append]
  rfl

theorem sumOf_append (type : String) (es es' : List Entry) :
    sumOf type (es ++ es') = sumOf type es + sumOf type es' := by
  rw [sumOf, List.filter_append, List.map_append, List.sum_append]
  rfl

/-- **Conservation**: the accounts hold what was deposited less what was withdrawn. -/
theorem total_replay (es : List Entry) :
    (replay es).total = sumOf "DEPOSIT" es - sumOf "WITHDRAWAL" es := by
  induction es using List.reverseRecOn with
  | nil => rfl
  | append_singleton es e ih =>
    rw [replay_append, total_apply, ih, sumOf_append, sumOf_append]
    omega

/-! ### Postings to a book -/

/-- A posting to a book. -/
def Posting.post : Posting → Accounts Str → Accounts Str
  | .create u, a => a.create u
  | .add sign n u, a => a.add u (sign.apply 0 n)

/-- The balance the posting reaches stays an integer of 64 bits. -/
def Posting.InRange : Posting → Accounts Str → Prop
  | .create _, _ => True
  | .add sign n u, a => ∀ e ∈ a.entries, e.1 = u → fitsInt64 (sign.apply e.2 n) = true

instance (p : Posting) (a : Accounts Str) : Decidable (p.InRange a) :=
  match p with
  | .create _ => inferInstanceAs (Decidable True)
  | .add .. => inferInstanceAs (Decidable (∀ _ ∈ _, _))

/-- So do the balances reached by postings one after the other. -/
def InRange : List Posting → Accounts Str → Prop
  | [], _ => True
  | p :: ps, a => p.InRange a ∧ InRange ps (p.post a)

instance decidableInRange : (ps : List Posting) → (a : Accounts Str) → Decidable (InRange ps a)
  | [], _ => inferInstanceAs (Decidable True)
  | _ :: ps, _ => @instDecidableAnd _ _ _ (decidableInRange ps _)

/-- The postings of a call. -/
def Call.postings (c : Call) : List Posting :=
  if c.token < 1000 then [] else creations c ++ updates c

/-- The entry of a call. -/
def Call.entry (c : Call) : Entry := ⟨c.src, c.dest, c.txType, c.amount.toInt⟩

/-- The postings of an authorised call are those of its entry. -/
theorem foldl_postings (c : Call) (a : Accounts Str) :
    (creations c ++ updates c).foldl (fun a p => p.post a) a = c.entry.apply a := by
  unfold Entry.apply updates updates? Call.entry
  dsimp only
  rw [List.foldl_append]
  have hcreated : (creations c).foldl (fun a p => p.post a) a =
      (a.create c.src).create c.dest := rfl
  rw [hcreated]
  split_ifs
  · simp [Posting.post, Sign.apply]
  · simp [Posting.post, Sign.apply]
  · simp [Posting.post, Sign.apply]
  · -- the accounts are there already
    have hsrc : c.src ∈ ((a.create c.src).create c.dest).names :=
      Accounts.mem_names_create_of_mem (Accounts.mem_names_create ..) _
    rw [Option.getD_none, creations, List.foldl_cons, List.foldl_cons, List.foldl_nil, Posting.post,
      Posting.post, Accounts.create_of_mem hsrc,
      Accounts.create_of_mem (Accounts.mem_names_create ..)]

/-! ### The table of accounts -/

/-- The row is the account. -/
def IsAccount (r : Row) (e : Str × Int) : Prop := r userCol = .text e.1 ∧ r balanceCol = .int e.2

/-- The table stands for the book. -/
def Represents (t : Table) (a : Accounts Str) : Prop := List.Forall₂ IsAccount t.rows a.entries

theorem forall₂_any_iff {rows : List Row} {es : List (Str × Int)}
    (h : List.Forall₂ IsAccount rows es) (u : Str) :
    rows.any (fun r => r userCol == .text u) = true ↔ u ∈ es.map Prod.fst := by
  induction h with
  | nil => simp
  | cons hr _ ih =>
    rw [List.any_cons, Bool.or_eq_true, ih, hr.1, beq_iff_eq, Value.text.injEq, List.map_cons,
      List.mem_cons, eq_comm]

/-- An account is in the table when it is in the book. -/
theorem Represents.hasValue_iff {t : Table} {a : Accounts Str} (h : Represents t a) (u : Str) :
    t.hasValue userCol (.text u) = true ↔ u ∈ a.names := forall₂_any_iff h u

theorem isAccount_row (u : Str) :
    IsAccount (rowOf [(userCol, .text u), (balanceCol, .int 0)]) (u, 0) :=
  ⟨rfl, rfl⟩

/-- An update in range does to a row what the posting does to the account. -/
theorem IsAccount.updateRow {r : Row} {e : Str × Int} (h : IsAccount r e) (eng : Engine)
    {sign : Sign} {n : Int} {u : Str} (hfits : e.1 = u → fitsInt64 (sign.apply e.2 n) = true) :
    IsAccount (updateRow eng balanceCol sign n userCol u r)
      (if e.1 = u then (e.1, e.2 + sign.apply 0 n) else e) := by
  have hamount : sign.apply e.2 n = e.2 + sign.apply 0 n := by
    cases sign with
    | plus => simp [Sign.apply]
    | minus => simp [Sign.apply]; omega
  rw [hamount] at hfits
  refine ⟨?_, ?_⟩
  · rw [updateRow_user, h.1]
    split_ifs <;> rfl
  · unfold Sql.updateRow
    simp only [h.1, Value.text.injEq]
    split_ifs with hu
    · simp only [Function.update_self, h.2, Engine.combine, hamount, if_pos (hfits hu)]
    · exact h.2

theorem forall₂_updateRow {rows : List Row} {es : List (Str × Int)}
    (h : List.Forall₂ IsAccount rows es) (eng : Engine) {sign : Sign} {n : Int} {u : Str}
    (hfits : ∀ e ∈ es, e.1 = u → fitsInt64 (sign.apply e.2 n) = true) :
    List.Forall₂ IsAccount (rows.map (updateRow eng balanceCol sign n userCol u))
      (es.map fun e => if e.1 = u then (e.1, e.2 + sign.apply 0 n) else e) := by
  induction h with
  | nil => exact .nil
  | cons hr _ ih =>
    obtain ⟨he, hes⟩ := List.forall_mem_cons.mp hfits
    exact .cons (hr.updateRow eng he) (ih hes)

/-- A posting in range does to the table what it does to the book. -/
theorem Represents.run {t : Table} {a : Accounts Str} (h : Represents t a) (eng : Engine)
    {p : Posting} (hp : p.InRange a) : Represents (p.run eng t) (p.post a) := by
  cases p with
  | create u =>
    rw [Posting.run, Posting.post, Accounts.create]
    by_cases hu : u ∈ a.names
    · rwa [if_pos ((h.hasValue_iff u).mpr hu), dif_pos hu]
    · rw [if_neg (mt (h.hasValue_iff u).mp hu), dif_neg hu]
      exact List.rel_append h (.cons (isAccount_row u) .nil)
  | add sign n u => exact forall₂_updateRow h eng hp

/-- So do postings one after the other. -/
theorem Represents.foldl_run {ps : List Posting} {t : Table} {a : Accounts Str} (h : Represents t a)
    (eng : Engine) (hps : InRange ps a) :
    Represents (ps.foldl (fun t p => p.run eng t) t) (ps.foldl (fun a p => p.post a) a) := by
  induction ps generalizing t a with
  | nil => exact h
  | cons p ps ih => exact ih (h.run eng hps.1) hps.2

/-! ### The table of transactions -/

/-- The row of an approved transaction. -/
def isApproved (r : Row) : Bool := r (bytes "status") == .text approvedStatus

/-- The transaction in a row. -/
def entryOf (r : Row) : Option Entry :=
  match r (bytes "src"), r (bytes "dest"), r (bytes "type"), r (bytes "amount") with
  | .text src, .text dest, .text txType, .int amount => some ⟨src, dest, txType, amount⟩
  | _, _, _, _ => none

/-- The approved transactions, in the order of the table. -/
def approvedEntries (t : Table) : Option (List Entry) := (t.rows.filter isApproved).mapM entryOf

/-- The ids are integers in increasing order. -/
def IncreasingIds (t : Table) : Prop :=
  ∃ ids : List Int, (t.rows.map fun r => r idCol) = ids.map .int ∧ ids.Pairwise (· < ·)

theorem entryOf_of_records {r : Row} {c : Call} {status : Str} (h : Records r c status) :
    entryOf r = some c.entry := by
  rw [entryOf, h.src, h.dest, h.type, h.amount]
  rfl

/-- A record of an approved call adds its entry, and another record adds none. -/
theorem approvedEntries_append {t : Table} {es : List Entry} (h : approvedEntries t = some es)
    {r : Row} {c : Call} {status : Str} (hr : Records r c status) (i : Int) :
    approvedEntries { t with rows := t.rows ++ [r], seq := i } =
      some (es ++ if status = approvedStatus then [c.entry] else []) := by
  unfold approvedEntries at h ⊢
  rw [List.filter_append, List.mapM_append, h]
  by_cases hs : status = approvedStatus
  · have happroved : isApproved r = true := by rw [isApproved, hr.status, hs, beq_self_eq_true]
    simp [happroved, hs, entryOf_of_records hr]
  · have hblocked : isApproved r = false := by simp [isApproved, hr.status, hs]
    simp [hblocked, hs]

/-- A record gets an id above the ids there are. -/
theorem increasingIds_append {t : Table} (h : IncreasingIds t) (r : Row) :
    IncreasingIds { t with
      rows := t.rows ++ [Function.update r idCol (.int (t.lastId idCol + 1))]
      seq := t.lastId idCol + 1 } := by
  obtain ⟨ids, hids, hinc⟩ := h
  refine ⟨ids ++ [t.lastId idCol + 1], ?_, ?_⟩
  · rw [List.map_append, hids, List.map_append]
    simp
  · rw [List.pairwise_append]
    refine ⟨hinc, List.pairwise_singleton _ _, fun i hi j hj => ?_⟩
    obtain rfl := List.mem_singleton.mp hj
    -- an id of the table is at most the largest one
    have hmem : Value.int i ∈ t.rows.map fun r => r idCol := hids ▸ List.mem_map_of_mem hi
    obtain ⟨r, hr, hri⟩ := List.mem_map.mp hmem
    exact Int.lt_add_one_of_le (le_lastId hr hri)

/-! ### Runs -/

/-- The book after the calls. -/
def book (calls : List Call) : Accounts Str :=
  (calls.flatMap Call.postings).foldl (fun a p => p.post a) Accounts.empty

theorem book_append (calls : List Call) (c : Call) :
    book (calls ++ [c]) = c.postings.foldl (fun a p => p.post a) (book calls) := by
  rw [book, List.flatMap_append, List.foldl_append, List.flatMap_singleton]
  rfl

theorem inRange_append {ps qs : List Posting} {a : Accounts Str} (h : InRange (ps ++ qs) a) :
    InRange qs (ps.foldl (fun a p => p.post a) a) := by
  induction ps generalizing a with
  | nil => exact h
  | cons p ps ih => exact ih h.2

theorem inRange_left {ps qs : List Posting} {a : Accounts Str} (h : InRange (ps ++ qs) a) :
    InRange ps a := by
  induction ps generalizing a with
  | nil => trivial
  | cons p ps ih => exact ⟨h.1, ih h.2⟩

/-- The transactions explain the accounts, which are those of the book. -/
structure Audited (es : List Entry) (calls : List Call) (ta tl : Table) : Prop where
  entries_eq : approvedEntries tl = some es
  replay_eq : replay es = book calls
  represents : Represents ta (book calls)
  ids : IncreasingIds tl

/-- Every text of the call has succeeded. -/
def TextsOk (eng : Engine) (db : Option Db) (c : Call) : Prop :=
  ∀ x ∈ (bankExecuteTransaction eng noFails db c).log, x.ok = true

instance (eng : Engine) (db : Option Db) (c : Call) : Decidable (TextsOk eng db c) :=
  inferInstanceAs (Decidable (∀ _ ∈ _, _))

section Audit

variable {eng : Engine} {db : Db} {ta tl : Table} {c : Call} {es : List Entry} {calls : List Call}

theorem textsOk_oks {e : Effect} (hok : TextsOk eng (some db) c)
    (hout : (bankExecuteTransaction eng noFails (some db) c).Is userCol e) :
    ∀ b ∈ e.oks, b = true := by
  rw [← hout.oks_eq]
  rintro b hb
  obtain ⟨x, hx, rfl⟩ := List.mem_map.mp hb
  exact hok x hx

/-- A record that succeeds gets the next id. -/
theorem record_of_ok (h : LogTable tl) {status : Str} (hok : (record tl false c status).2 = true) :
    (record tl false c status).1 = { tl with
      rows := tl.rows ++ [Function.update (recordRow c status) idCol (.int (tl.lastId idCol + 1))]
      seq := tl.lastId idCol + 1 } := by
  cases hi : tl.nextId idCol with
  | none =>
    rw [record_of_fails h (Or.inr hi)] at hok
    cases hok
  | some i =>
    obtain ⟨rfl, -⟩ := nextId_eq_some hi
    rw [record_of_nextId h hi]

/-- A blocked call leaves the book and the approved transactions. -/
theorem Audited.blocked (h : Audited es calls ta tl) (hlog : LogTable tl) (htoken : c.token < 1000)
    (hok : (record tl false c blockedStatus).2 = true) :
    Audited es (calls ++ [c]) ta (record tl false c blockedStatus).1 := by
  have hbook : book (calls ++ [c]) = book calls := by
    rw [book_append, Call.postings, if_pos htoken]
    rfl
  rw [record_of_ok hlog hok]
  refine ⟨?_, h.replay_eq.trans hbook.symm, hbook ▸ h.represents, increasingIds_append h.ids _⟩
  have happend := approvedEntries_append h.entries_eq
    (records_recordRow c blockedStatus (.int (tl.lastId idCol + 1))) (tl.lastId idCol + 1)
  rwa [if_neg (by decide), List.append_nil] at happend

/-- An authorised call makes the postings of its entry, and adds the entry. -/
theorem Audited.authorised (h : Audited es calls ta tl) (hlog : LogTable tl)
    (htoken : ¬ c.token < 1000) (hrange : InRange c.postings (book calls))
    (hok : (record tl false c approvedStatus).2 = true) :
    Audited (es ++ [c.entry]) (calls ++ [c]) (c.postings.foldl (fun t p => p.run eng t) ta)
      (record tl false c approvedStatus).1 := by
  have hbook : replay (es ++ [c.entry]) = book (calls ++ [c]) := by
    rw [replay_append, h.replay_eq, book_append, Call.postings, if_neg htoken, foldl_postings]
  rw [record_of_ok hlog hok]
  refine ⟨?_, hbook, book_append calls c ▸ h.represents.foldl_run eng hrange,
    increasingIds_append h.ids _⟩
  have happend := approvedEntries_append h.entries_eq
    (records_recordRow c approvedStatus (.int (tl.lastId idCol + 1))) (tl.lastId idCol + 1)
  rwa [if_pos rfl] at happend

/-- Without failures, an authorised call makes all its postings and its record. -/
theorem authorisedEffect_noFails (htoken : ¬ c.token < 1000) :
    authorisedEffect eng noFails c ta tl = ⟨c.postings.foldl (fun t p => p.run eng t) ta,
      (record tl false c approvedStatus).1, 0,
      [true, true, (record tl false c approvedStatus).2, true, true]⟩ := by
  rw [authorisedEffect, runPostings_noFails, runPostings_noFails, if_pos rfl, Call.postings,
    if_neg htoken, List.foldl_append]
  rfl

/-- The step: a call keeps the two tables, and that the transactions explain the accounts. -/
theorem audited_step (h : Schema userCol db ta tl) (haudit : Audited es calls ta tl)
    (hc : c.QuoteFree) (hok : TextsOk eng (some db) c) (hrange : InRange c.postings (book calls))
    {db' : Option Db} (hs : next eng (some db) c = some db') :
    ∃ d ta' tl' es', db' = some d ∧ Schema userCol d ta' tl' ∧
      Audited es' (calls ++ [c]) ta' tl' := by
  obtain ⟨rc, hret, rfl⟩ := next_eq_some hs
  by_cases htoken : c.token < 1000
  · have hout := blocked_spec h hc htoken hret
    have hrec := textsOk_oks hok hout _ (List.mem_cons_self ..)
    obtain ⟨⟨d, hd, hschema⟩, -, -⟩ := hout
    exact ⟨d, _, _, es, hd, hschema, haudit.blocked h.logTable htoken hrec⟩
  · have hout := authorised_spec h hc htoken hret
    rw [authorisedEffect_noFails htoken] at hout
    have hrec := textsOk_oks hok hout (record tl false c approvedStatus).2 (by simp)
    obtain ⟨⟨d, hd, hschema⟩, -, -⟩ := hout
    exact ⟨d, _, _, _, hd, hschema, haudit.authorised h.logTable htoken hrange hrec⟩

end Audit

theorem sum_balances {rows : List Row} {entries : List (Str × Int)}
    (h : List.Forall₂ IsAccount rows entries) :
    (rows.filterMap fun r => r.int? balanceCol).sum = (entries.map Prod.snd).sum := by
  induction h with
  | nil => rfl
  | @cons r e _ _ hr _ ih =>
    have hint : r.int? balanceCol = some e.2 := by rw [Row.int?, hr.2]
    rw [List.filterMap_cons]
    simp only [hint, List.sum_cons, ih, List.map_cons]

theorem map_isAccount {rows : List Row} {entries : List (Str × Int)}
    (h : List.Forall₂ IsAccount rows entries) :
    (rows.map fun r => (r userCol, r balanceCol)) =
      entries.map fun e => (Value.text e.1, Value.int e.2) := by
  induction h with
  | nil => rfl
  | cons hr _ ih => rw [List.map_cons, hr.1, hr.2, ih, List.map_cons]

/-- A volume whose two tables are empty. -/
structure EmptyVolume (vol : Db) : Prop extends Volume userCol vol where
  accounts_rows : ∀ t, vol.tables accounts = some t → t.rows = []
  transactions_rows : ∀ t, vol.tables transactions = some t → t.rows = []

theorem audited_empty {ta tl : Table} (hta : ta.rows = []) (htl : tl.rows = []) :
    Audited [] [] ta tl := by
  refine ⟨?_, rfl, ?_, [], ?_, .nil⟩
  · rw [approvedEntries, htl]
    rfl
  · rw [Represents, hta]
    exact .nil
  · rw [htl]
    rfl

/-- **The transactions explain the accounts**: after calls without quotes whose texts all succeed,
the approved transactions, replayed in the order of their ids, give the accounts. -/
theorem audit {eng : Engine} {vol : Db} (hvol : EmptyVolume vol) {db₀ db : Option Db}
    (hinit : preInit eng noFails (some vol) = some db₀) {calls : List Call}
    (hcalls : ∀ c ∈ calls, c.QuoteFree) (hrun : runSteps (next eng) db₀ calls = some db)
    (hok : EveryStep (next eng) (fun _ db c => TextsOk eng db c) db₀ calls)
    (hrange : InRange (calls.flatMap Call.postings) Accounts.empty) :
    ∃ d ta tl es, db = some d ∧ d.tables accounts = some ta ∧ d.tables transactions = some tl ∧
      IncreasingIds tl ∧ approvedEntries tl = some es ∧
      (ta.rows.map fun r => (r userCol, r balanceCol)) =
        (replay es).entries.map (fun e => (.text e.1, .int e.2)) ∧
      (ta.rows.filterMap fun r => r.int? balanceCol).sum =
        sumOf "DEPOSIT" es - sumOf "WITHDRAWAL" es := by
  obtain ⟨d₀, hd₀, h₀⟩ := preInit_spec hvol.toVolume eng
  obtain rfl := Option.some.inj (hinit.symm.trans hd₀)
  have hempty : Audited [] [] ((vol.tables accounts).getD newAccounts)
      ((vol.tables transactions).getD newLog) := by
    refine audited_empty ?_ ?_
    · cases h : vol.tables accounts with
      | none => rfl
      | some t => exact hvol.accounts_rows t h
    · cases h : vol.tables transactions with
      | none => rfl
      | some t => exact hvol.transactions_rows t h
  -- the book is that of the calls before the step, so the invariant needs the history
  have hinv : ∃ d ta tl es, db = some d ∧ Schema userCol d ta tl ∧ Audited es calls ta tl := by
    refine runSteps_invariant
      (P := fun pre db c => c.QuoteFree ∧ TextsOk eng db c ∧ InRange c.postings (book pre))
      (I := fun pre db => ∃ d ta tl es, db = some d ∧ Schema userCol d ta tl ∧ Audited es pre ta tl)
      ⟨d₀, _, _, [], rfl, h₀, hempty⟩ ?_ ?_ hrun
    · rintro pre - c db' - ⟨d, ta, tl, es, rfl, hschema, haudit⟩ ⟨hc, hcok, hcrange⟩ hs
      exact audited_step hschema haudit hc hcok hcrange hs
    · rintro pre c post t rfl ht
      rw [List.flatMap_append, List.flatMap_cons] at hrange
      exact ⟨hcalls c (by simp), hok pre c post t rfl ht, inRange_left (inRange_append hrange)⟩
  obtain ⟨d, ta, tl, es, rfl, hschema, haudit⟩ := hinv
  have hrep := haudit.represents
  rw [← haudit.replay_eq] at hrep
  exact ⟨d, ta, tl, es, rfl, hschema.accounts_eq, hschema.transactions_eq, haudit.ids,
    haudit.entries_eq, map_isAccount hrep, (sum_balances hrep).trans (total_replay es)⟩

theorem emptyVolume_user : EmptyVolume userVolume where
  toVolume := volume_user
  accounts_rows t h := by
    rw [userVolume, setTable_tables_self, Option.some.injEq] at h
    rw [← h]
  transactions_rows t h := by
    rw [userVolume, setTable_tables_of_ne _ _ (by decide)] at h
    cases h

/-- A deposit, a blocked call, a transfer, and a type that is not known. -/
def auditRun : List Call :=
  [⟨1001, bytes "", bytes "Alice", bytes "DEPOSIT", 500⟩,
    ⟨5, bytes "Alice", bytes "Eve", bytes "TRANSFER", 500⟩, mockCall,
    ⟨2000, bytes "Bob", bytes "Bob", bytes "GIFT", -7⟩]

/-- The database that `pre_init` makes on a volume with the key `user`. -/
def firstUserDb : Option Db := (preInit plainEngine noFails (some userVolume)).getD none

theorem audit_auditRun : ∃ d ta tl es,
    runSteps (next plainEngine) firstUserDb auditRun = some (some d) ∧
    d.tables accounts = some ta ∧ d.tables transactions = some tl ∧
    IncreasingIds tl ∧ approvedEntries tl = some es ∧
    (ta.rows.map fun r => (r userCol, r balanceCol)) =
      (replay es).entries.map (fun e => (.text e.1, .int e.2)) ∧
    (ta.rows.filterMap fun r => r.int? balanceCol).sum =
      sumOf "DEPOSIT" es - sumOf "WITHDRAWAL" es := by
  have hsome : (runSteps (next plainEngine) firstUserDb auditRun).isSome = true := by decide +kernel
  obtain ⟨db, hrun⟩ := Option.isSome_iff_exists.mp hsome
  have hok : EveryStep (next plainEngine) (fun _ db c => TextsOk plainEngine db c) firstUserDb
      auditRun := by
    decide +kernel
  obtain ⟨d, ta, tl, es, rfl, h⟩ :=
    audit emptyVolume_user rfl (by decide) hrun hok (by decide +kernel)
  exact ⟨d, ta, tl, es, hrun, h⟩

end BankSel4.Ledger
