import BankSel4.Algorithm.Run
import BankSel4.Ledger.Equiv.Runs
import BankSel4.Ledger.Equiv.TokenCheck
import BankSel4.System.Calls

/-!
# Tokens

`Issued log t`: some login in the log of the calls so far returned the token `t`.  The AuthServer
has issued the tokens above 1000 up to its counter (`issued_of_le`), and no others before the
counter wraps around (`le_of_issued`).

The Ledger has no connection to the AuthServer, and accepts every token from 1000 on.  So an
authorised call carries an issued token exactly when its token is one of those: `unforged_iff`.  The
first call of the client is authorised with a token that nobody was given (`not_unforged_mockCall`).
-/

namespace BankSel4.System

open Sql Ledger

/-- A login in the log returned the token. -/
def Issued (log : List (Rpc × Reply)) (t : Int32) : Prop :=
  t ≠ -1 ∧ ∃ caller user pin stores,
    (Rpc.auth caller (.login user pin), Reply.auth ⟨t, stores⟩) ∈ log

/-- If the call is authorised, its token was issued. -/
def Unforged (eng : Engine) (p : State × List (Rpc × Reply)) : Rpc → Prop
  | .auth .. => True
  | .bank _ fails c => Authorised eng fails p.1.db c → Issued p.2 c.token

/-- If the call passes the check, its token is above 1000 and not above the counter. -/
def TokenInRange (p : State × List (Rpc × Reply)) : Rpc → Prop
  | .auth .. => True
  | .bank _ _ c => p.1.db.isSome = true → 1000 ≤ c.token →
    fitsSql createFormat [.str c.src, .str c.dest] →
    1000 < c.token ∧ c.token ≤ p.1.auth.nextTokenId

instance (p : State × List (Rpc × Reply)) (a : Rpc) : Decidable (TokenInRange p a) :=
  match a with
  | .auth .. => inferInstanceAs (Decidable True)
  | .bank .. => inferInstanceAs (Decidable (_ → _))

/-- The state the system starts in, with the database that the Ledger has opened. -/
def start (db : Option Db) : State × List (Rpc × Reply) := (⟨Auth.State.init, db⟩, [])

/-! ### The counter -/

/-- The token was returned by the last call, or by one before it. -/
theorem issued_append {log : List (Rpc × Reply)} {x : Rpc × Reply} {t : Int32} :
    Issued (log ++ [x]) t ↔ Issued log t ∨ t ≠ -1 ∧ ∃ caller user pin stores,
      x = (Rpc.auth caller (.login user pin), Reply.auth ⟨t, stores⟩) := by
  unfold Issued
  simp only [List.mem_append, List.mem_singleton]
  grind

/-- What a call of the system does to the counter and to the tokens issued. -/
theorem step_cases {eng : Engine} {p q : State × List (Rpc × Reply)} {a : Rpc}
    (h : withLog (step eng) p a = some q) :
    (q.1.auth.nextTokenId = p.1.auth.nextTokenId + 1 ∧
        ∀ t, Issued q.2 t ↔ Issued p.2 t ∨ t ≠ -1 ∧ t = p.1.auth.nextTokenId + 1) ∨
      (q.1.auth.nextTokenId = p.1.auth.nextTokenId ∧ ∀ t, Issued q.2 t ↔ Issued p.2 t) := by
  obtain ⟨reply, hstep, hlog⟩ := withLog_eq_some.mp h
  cases a with
  | bank caller fails c =>
    obtain ⟨rc, -, heq⟩ := Option.map_eq_some_iff.mp hstep
    obtain ⟨hstate, rfl⟩ := Prod.mk.inj heq
    refine Or.inr ⟨by rw [← hstate], fun t => ?_⟩
    rw [hlog, issued_append]
    simp
  | auth caller op =>
    obtain ⟨r, hr, heq⟩ := Option.map_eq_some_iff.mp hstep
    obtain ⟨hstate, rfl⟩ := Prod.mk.inj heq
    cases op with
    | registerUser user pin =>
      obtain ⟨reg, hreg, hreply⟩ := Option.map_eq_some_iff.mp hr
      refine Or.inr ⟨?_, fun t => ?_⟩
      · rw [← hstate, ← hreply]
        exact Auth.nextTokenId_authRegisterUser (toOption_eq_some.mp hreg)
      · rw [hlog, issued_append]
        simp
    | login user pin =>
      obtain ⟨res, hres, hreply⟩ := Option.map_eq_some_iff.mp hr
      rw [← hstate, ← hreply]
      rcases Auth.authLogin_cases (toOption_eq_some.mp hres) with ⟨-, rfl⟩ | ⟨-, rfl⟩
      · refine Or.inl ⟨rfl, fun t => ?_⟩
        rw [hlog, issued_append, ← hreply]
        simp [eq_comm]
      · refine Or.inr ⟨rfl, fun t => ?_⟩
        rw [hlog, issued_append, ← hreply]
        grind

theorem toInt_add_one {a : Int32} (h : a.toInt < 2 ^ 31 - 1) : (a + 1).toInt = a.toInt + 1 := by
  have := a.le_toInt
  exact toInt_add_of_inRange (by simp; omega) (by simp; omega)

/-- Nothing lies between the counter and the next token. -/
theorem eq_add_one {a t : Int32} (h : a < t) (h' : t ≤ a + 1) : t = a + 1 := by
  have hmax := t.toInt_lt
  rw [Int32.lt_iff_toInt_lt] at h
  have hsucc := toInt_add_one (a := a) (by omega)
  rw [Int32.le_iff_toInt_le, hsucc] at h'
  rw [← Int32.toInt_inj, hsucc]
  omega

/-! ### Runs -/

section Runs

variable {eng : Engine} {db : Option Db} {l : List Rpc} {p : State × List (Rpc × Reply)}

/-- In every run, the tokens above 1000 up to the counter were issued. -/
theorem issued_of_le (hrun : runSteps (withLog (step eng)) (start db) l = some p) {t : Int32}
    (hlo : 1000 < t) (hhi : t ≤ p.1.auth.nextTokenId) : Issued p.2 t := by
  refine runSteps_state_invariant
    (I := fun p => ∀ t, 1000 < t → t ≤ p.1.auth.nextTokenId → Issued p.2 t)
    (fun t hlo hhi => absurd hlo (Int32.not_lt.mpr hhi)) ?_ hrun t hlo hhi
  intro p a q hinv hs t hlo hhi
  rcases step_cases hs with ⟨hnext, hissued⟩ | ⟨hnext, hissued⟩
  · rw [hissued]
    rw [hnext] at hhi
    by_cases hle : t ≤ p.1.auth.nextTokenId
    · exact Or.inl (hinv t hlo hle)
    · -- the token is the one this login returns
      have hne : t ≠ -1 := fun h => absurd (h ▸ hlo) (by decide)
      exact Or.inr ⟨hne, eq_add_one (Int32.not_le.mp hle) hhi⟩
  · rw [hissued]
    exact hinv t hlo (hnext ▸ hhi)

/-- After `n` calls the counter is between 1000 and 1000 + `n`, and the tokens issued are above 1000
and not above the counter. -/
structure Counted (n : Nat) (p : State × List (Rpc × Reply)) : Prop where
  lo : 1000 ≤ p.1.auth.nextTokenId.toInt
  hi : p.1.auth.nextTokenId.toInt ≤ 1000 + (n : Int)
  issued : ∀ t, Issued p.2 t → 1000 < t.toInt ∧ t.toInt ≤ p.1.auth.nextTokenId.toInt

theorem counted_start (db : Option Db) : Counted 0 (start db) where
  lo := (by decide : 1000 ≤ (1000 : Int32).toInt)
  hi := (by decide : (1000 : Int32).toInt ≤ 1000 + (0 : Nat))
  issued := by
    rintro t ⟨-, caller, user, pin, stores, hmem⟩
    exact absurd hmem List.not_mem_nil

theorem Counted.step {n : Nat} {q : State × List (Rpc × Reply)} {a : Rpc} (h : Counted n p)
    (hn : n + 1 < 2 ^ 31 - 1000) (hs : withLog (step eng) p a = some q) : Counted (n + 1) q := by
  obtain ⟨hlo, hhi, hissued⟩ := h
  rcases step_cases hs with ⟨hnext, hiff⟩ | ⟨hnext, hiff⟩
  · have hsucc := toInt_add_one (a := p.1.auth.nextTokenId) (by omega)
    rw [← hnext] at hsucc
    refine ⟨by omega, by push_cast; omega, fun t ht => ?_⟩
    rcases (hiff t).mp ht with ht | ⟨-, rfl⟩
    · have := hissued t ht
      omega
    · rw [← hnext]
      omega
  · refine ⟨by rwa [hnext], by rw [hnext]; push_cast; omega, fun t ht => ?_⟩
    rw [hnext]
    exact hissued t ((hiff t).mp ht)

/-- While the counter has not wrapped around, only tokens above 1000 up to it were issued. -/
theorem le_of_issued (hrun : runSteps (withLog (step eng)) (start db) l = some p)
    (hlen : l.length < 2 ^ 31 - 1000) {t : Int32} (ht : Issued p.2 t) :
    1000 < t ∧ t ≤ p.1.auth.nextTokenId := by
  have hcounted : Counted l.length p := by
    refine runSteps_invariant (P := fun pre _ _ => pre.length + 1 < 2 ^ 31 - 1000)
      (I := fun pre p => Counted pre.length p) (counted_start db) ?_ ?_ hrun
    · intro pre p a q _ hinv hpre hs
      rw [List.length_append, List.length_singleton]
      exact hinv.step hpre hs
    · rintro pre a post t rfl -
      rw [List.length_append, List.length_cons] at hlen
      omega
  obtain ⟨hlo, hhi⟩ := hcounted.issued t ht
  exact ⟨Int32.lt_iff_toInt_lt.mpr hlo, Int32.le_iff_toInt_le.mpr hhi⟩

/-- **Tokens that were issued.**  In every run whose calls of the Ledger have tokens in the range,
every authorised call has a token that an earlier login returned; and only in these, as long as the
counter does not wrap around. -/
theorem unforged_iff (eng : Engine) (db : Option Db) (l : List Rpc) :
    (EveryStep (withLog (step eng)) (fun _ p a => TokenInRange p a) (start db) l →
      EveryStep (withLog (step eng)) (fun _ p a => Unforged eng p a) (start db) l) ∧
    (l.length < 2 ^ 31 - 1000 →
      EveryStep (withLog (step eng)) (fun _ p a => Unforged eng p a) (start db) l →
      EveryStep (withLog (step eng)) (fun _ p a => TokenInRange p a) (start db) l) := by
  constructor
  · intro hrange pre a post p hsplit hrun
    cases a with
    | auth caller op => trivial
    | bank caller fails c =>
      intro hauth
      obtain ⟨hdb, htoken, hfits⟩ := authorised_iff.mp hauth
      obtain ⟨hlo, hhi⟩ := hrange pre _ post p hsplit hrun hdb (Int32.not_lt.mp htoken) hfits
      exact issued_of_le hrun hlo hhi
  · intro hlen hunforged pre a post p hsplit hrun
    cases a with
    | auth caller op => trivial
    | bank caller fails c =>
      intro hdb htoken hfits
      have hauth : Authorised eng fails p.1.db c :=
        authorised_iff.mpr ⟨hdb, Int32.not_lt.mpr htoken, hfits⟩
      have hpre : pre.length < 2 ^ 31 - 1000 := by
        rw [hsplit, List.length_append] at hlen
        omega
      exact le_of_issued hrun hpre (hunforged pre _ post p hsplit hrun hauth)

end Runs

/-- A user registers and logs in at the gateway, and the client uses the token. -/
def tokenRun : List Rpc :=
  [.auth .gateway (.registerUser (bytes "Alice") (bytes "1234")),
    .auth .gateway (.login (bytes "Alice") (bytes "1234")), .bank .client noFails mockCall]

theorem unforged_tokenRun :
    EveryStep (withLog (step plainEngine)) (fun _ p a => Unforged plainEngine p a) (start firstDb)
      tokenRun := by
  have hrange : EveryStep (withLog (step plainEngine)) (fun _ p a => TokenInRange p a)
      (start firstDb) tokenRun := by
    decide +kernel
  exact (unforged_iff plainEngine firstDb tokenRun).1 hrange

/-- The first call of the client, with a token that nobody was given. -/
theorem not_unforged_mockCall : preInit plainEngine noFails (some Db.empty) = some firstDb ∧
    ¬ EveryStep (withLog (step plainEngine)) (fun _ p a => Unforged plainEngine p a) (start firstDb)
      [.bank .client noFails mockCall] := by
  refine ⟨rfl, fun h => ?_⟩
  have hauth : Authorised plainEngine noFails firstDb mockCall :=
    authorised_iff.mpr ⟨rfl, by decide, textsFit_mockCall.create⟩
  obtain ⟨-, caller, user, pin, stores, hmem⟩ := h [] _ [] _ rfl rfl hauth
  exact List.not_mem_nil hmem

end BankSel4.System
