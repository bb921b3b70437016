import BankSel4.System.Equiv.Tokens

/-!
# The token counter

A successful login adds one to `next_token_id` and returns it; nothing else changes the counter
(`tokenStep_cases`).  So the tokens go up until the counter reaches the largest `int`, and the next
successful login returns the smallest one, which the Ledger refuses: `usable_iff`.
-/

namespace BankSel4.System

open Sql Ledger

/-- The call is a login that finds its credentials. -/
def Succeeds (s : Auth.State) : Auth.Op → Prop
  | .registerUser .. => False
  | .login user pin => Auth.searchFrom s.users user pin s.numUsers 0 = .ok true

instance (s : Auth.State) (op : Auth.Op) : Decidable (Succeeds s op) :=
  match op with
  | .registerUser .. => inferInstanceAs (Decidable False)
  | .login .. => inferInstanceAs (Decidable (_ = _))

/-- A call of the AuthServer, with the values that the successful logins returned so far. -/
def tokenStep (p : Auth.State × List Int32) (op : Auth.Op) : Option (Auth.State × List Int32) :=
  (Auth.step p.1 op).map fun r => (r.1, if Succeeds p.1 op then p.2 ++ [r.2.rc] else p.2)

/-- The Ledger's token check lets the token pass: a call with it takes the authorised path whenever
its first text fits. -/
def Accepted (t : Int32) : Prop :=
  ∀ (eng : Engine) (fails : Nat → Nat → Bool) (db : Db) (c : Call), c.token = t →
    fitsSql createFormat [.str c.src, .str c.dest] → Authorised eng fails (some db) c

/-- The tokens are different from each other and from the failure result, and all are accepted. -/
structure Usable (tokens : List Int32) : Prop where
  nodup : tokens.Nodup
  ne_failure : ∀ t ∈ tokens, t ≠ -1
  accepted : ∀ t ∈ tokens, Accepted t

/-- The state the AuthServer starts in, before any login. -/
def firstTokens : Auth.State × List Int32 := (Auth.State.init, [])

/-- If the login succeeds, the counter can go up. -/
def CanCount (p : Auth.State × List Int32) (op : Auth.Op) : Prop :=
  Succeeds p.1 op → p.1.nextTokenId < Int32.maxValue

instance (p : Auth.State × List Int32) (op : Auth.Op) : Decidable (CanCount p op) :=
  inferInstanceAs (Decidable (_ → _))

theorem accepted_iff {t : Int32} : Accepted t ↔ 1000 ≤ t := by
  constructor
  · intro h
    have hfits : fitsSql createFormat [.str [], .str []] := by decide +kernel
    have hauth := h plainEngine noFails Db.empty ⟨t, [], [], [], 0⟩ rfl hfits
    exact Int32.not_lt.mp (authorised_iff.mp hauth).2.1
  · rintro ht eng fails db c rfl hfits
    exact authorised_iff.mpr ⟨rfl, Int32.not_lt.mpr ht, hfits⟩

/-! ### Steps -/

section Steps

variable {p q : Auth.State × List Int32} {op : Auth.Op} {l : List Auth.Op}

/-- What a call does to the counter and to the tokens. -/
theorem tokenStep_cases (h : tokenStep p op = some q) :
    (Succeeds p.1 op ∧ q.1.nextTokenId = p.1.nextTokenId + 1 ∧
        q.2 = p.2 ++ [p.1.nextTokenId + 1]) ∨
      (¬ Succeeds p.1 op ∧ q.1.nextTokenId = p.1.nextTokenId ∧ q.2 = p.2) := by
  obtain ⟨r, hr, rfl⟩ := Option.map_eq_some_iff.mp h
  cases op with
  | registerUser user pin =>
    obtain ⟨reg, hreg, rfl⟩ := Option.map_eq_some_iff.mp hr
    exact Or.inr ⟨id, Auth.nextTokenId_authRegisterUser (toOption_eq_some.mp hreg), rfl⟩
  | login user pin =>
    obtain ⟨res, hres, rfl⟩ := Option.map_eq_some_iff.mp hr
    rcases Auth.authLogin_cases (toOption_eq_some.mp hres) with ⟨hsearch, rfl⟩ | ⟨hsearch, rfl⟩
    · exact Or.inl ⟨hsearch, rfl, if_pos hsearch⟩
    · have hfail : ¬ Succeeds p.1 (.login user pin) := by
        intro hs
        cases hsearch.symm.trans hs
      exact Or.inr ⟨hfail, rfl, if_neg hfail⟩

/-- No token is taken back. -/
theorem tokens_mono (h : runSteps tokenStep p l = some q) {t : Int32} (ht : t ∈ p.2) : t ∈ q.2 := by
  induction l generalizing p with
  | nil => exact Option.some.inj h ▸ ht
  | cons op l ih =>
    obtain ⟨p', hp', hrun⟩ := Option.bind_eq_some_iff.mp h
    refine ih hrun ?_
    rcases tokenStep_cases hp' with ⟨-, -, htokens⟩ | ⟨-, -, htokens⟩
    · exact htokens ▸ List.mem_append_left _ ht
    · exact htokens ▸ ht

end Steps

/-! ### Runs -/

/-- As long as the counter goes up, it is not below any token, and the tokens go up from 1001. -/
structure Increasing (p : Auth.State × List Int32) : Prop where
  start_le : 1000 ≤ p.1.nextTokenId
  lt_of_mem : ∀ t ∈ p.2, 1000 < t
  le_counter : ∀ t ∈ p.2, t ≤ p.1.nextTokenId
  sorted : p.2.Pairwise (· < ·)

theorem increasing_firstTokens : Increasing firstTokens where
  start_le := by decide
  lt_of_mem := nofun
  le_counter := nofun
  sorted := List.Pairwise.nil

theorem lt_add_one {a : Int32} (h : a < Int32.maxValue) : a < a + 1 := by
  rw [Int32.lt_iff_toInt_lt, toInt_add_one (Int32.lt_iff_toInt_lt.mp h)]
  omega

theorem Increasing.step {p q : Auth.State × List Int32} {op : Auth.Op} (h : Increasing p)
    (hcan : CanCount p op) (hs : tokenStep p op = some q) : Increasing q := by
  rcases tokenStep_cases hs with ⟨hsucc, hnext, htokens⟩ | ⟨-, hnext, htokens⟩
  · have hlt := lt_add_one (hcan hsucc)
    have hle : ∀ t ∈ p.2, t < p.1.nextTokenId + 1 := fun t ht =>
      Int32.lt_of_le_of_lt (h.le_counter t ht) hlt
    have hstart : 1000 < p.1.nextTokenId + 1 := Int32.lt_of_le_of_lt h.start_le hlt
    constructor
    · rw [hnext]
      exact Int32.le_of_lt hstart
    · rw [htokens, List.forall_mem_append]
      exact ⟨h.lt_of_mem, by simpa using hstart⟩
    · rw [htokens, hnext, List.forall_mem_append]
      exact ⟨fun t ht => Int32.le_of_lt (hle t ht), by simp⟩
    · rw [htokens, List.pairwise_append]
      exact ⟨h.sorted, List.pairwise_singleton _ _, by simpa using hle⟩
  · obtain ⟨h₁, h₂, h₃, h₄⟩ := h
    constructor
    · rwa [hnext]
    · rwa [htokens]
    · rwa [htokens, hnext]
    · rwa [htokens]

theorem Increasing.usable {p : Auth.State × List Int32} (h : Increasing p) : Usable p.2 where
  nodup := h.sorted.imp Int32.ne_of_lt
  ne_failure := by
    rintro t ht rfl
    exact absurd (h.lt_of_mem _ ht) (by decide)
  accepted t ht := accepted_iff.mpr (Int32.le_of_lt (h.lt_of_mem t ht))

/-- The login with the counter at the largest `int` returns a token that is refused. -/
theorem canCount_of_usable {l : List Auth.Op} {q : Auth.State × List Int32}
    (hrun : runSteps tokenStep firstTokens l = some q) (h : Usable q.2) :
    EveryStep tokenStep (fun _ p op => CanCount p op) firstTokens l := by
  intro pre op post p hsplit hpre hsucc
  by_contra hmax
  have heq : p.1.nextTokenId = Int32.maxValue := by
    have := p.1.nextTokenId.toInt_lt
    have hval : Int32.maxValue.toInt = 2 ^ 31 - 1 := rfl
    rw [Int32.lt_iff_toInt_lt] at hmax
    rw [← Int32.toInt_inj]
    omega
  rw [hsplit, runSteps_append, hpre] at hrun
  obtain ⟨p', hp', hpost⟩ := Option.bind_eq_some_iff.mp (Option.bind_some _ _ ▸ hrun)
  rcases tokenStep_cases hp' with ⟨-, -, htokens⟩ | ⟨hfail, -, -⟩
  · -- the counter has wrapped around, and the token is negative
    have hmem := tokens_mono hpost (htokens ▸ List.mem_append_right _ (List.mem_singleton_self _))
    exact absurd (accepted_iff.mp (h.accepted _ hmem)) (by rw [heq]; decide)
  · exact hfail hsucc

/-- **Tokens stay unique and usable** exactly as long as no login succeeds with the counter at the
largest `int`. -/
theorem usable_iff {l : List Auth.Op} {q : Auth.State × List Int32}
    (hrun : runSteps tokenStep firstTokens l = some q) :
    Usable q.2 ↔ EveryStep tokenStep (fun _ p op => CanCount p op) firstTokens l := by
  refine ⟨canCount_of_usable hrun, fun hcan => ?_⟩
  have hinc : Increasing q := by
    refine runSteps_invariant (I := fun _ p => Increasing p) increasing_firstTokens ?_ hcan hrun
    exact fun _ p op q _ h hop hs => h.step hop hs
  exact hinc.usable

/-! ### A user who logs in again and again -/

/-- A login that succeeds does so again, with the next token. -/
theorem tokenStep_of_succeeds {p : Auth.State × List Int32} {user pin : Str}
    (h : Succeeds p.1 (.login user pin)) : ∃ q, tokenStep p (.login user pin) = some q ∧
      Succeeds q.1 (.login user pin) ∧ q.1.nextTokenId = p.1.nextTokenId + 1 := by
  have hlogin : Auth.authLogin p.1 user pin =
      .ok (⟨p.1.users, p.1.numUsers, p.1.nextTokenId + 1⟩, p.1.nextTokenId + 1) := by
    unfold Auth.authLogin
    rw [show Auth.searchFrom p.1.users user pin p.1.numUsers 0 = .ok true from h]
    rfl
  refine ⟨(⟨p.1.users, p.1.numUsers, p.1.nextTokenId + 1⟩, p.2 ++ [p.1.nextTokenId + 1]),
    ?_, h, rfl⟩
  rw [tokenStep, Auth.step, hlogin]
  simp only [if_pos h]
  rfl

/-- Logins that succeed take the counter up one by one. -/
theorem exists_runSteps_logins {p : Auth.State × List Int32} {user pin : Str}
    (h : Succeeds p.1 (.login user pin)) (n : Nat) : ∃ q,
      runSteps tokenStep p (List.replicate n (.login user pin)) = some q ∧
        Succeeds q.1 (.login user pin) ∧ q.1.nextTokenId = p.1.nextTokenId + Int32.ofNat n := by
  induction n with
  | zero => exact ⟨p, rfl, h, (Int32.add_zero _).symm⟩
  | succ n ih =>
    obtain ⟨q, hq, hsucc, hnext⟩ := ih
    obtain ⟨r, hr, hsucc', hnext'⟩ := tokenStep_of_succeeds hsucc
    refine ⟨r, ?_, hsucc', ?_⟩
    · rw [List.replicate_succ']
      exact runSteps_snoc_eq_some.mpr ⟨q, hq, hr⟩
    · rw [hnext', hnext, Int32.add_assoc]
      congr 1
      exact (Int32.ofNat_add n 1).symm

/-- A user registers and logs in `n` times. -/
def loginRun (n : Nat) : List Auth.Op :=
  .registerUser (bytes "Alice") (bytes "1234") ::
    List.replicate n (.login (bytes "Alice") (bytes "1234"))

theorem exists_runSteps_loginRun (n : Nat) : ∃ q,
    runSteps tokenStep firstTokens (loginRun n) = some q ∧
      Succeeds q.1 (.login (bytes "Alice") (bytes "1234")) ∧
      q.1.nextTokenId = 1000 + Int32.ofNat n := by
  have hreg : (tokenStep firstTokens (.registerUser (bytes "Alice") (bytes "1234"))).any (fun p =>
      decide (Succeeds p.1 (.login (bytes "Alice") (bytes "1234")) ∧ p.1.nextTokenId = 1000)) := by
    decide +kernel
  obtain ⟨p, hp, hprop⟩ := (Option.any_eq_true _ _).mp hreg
  obtain ⟨hsucc, hcounter⟩ := of_decide_eq_true hprop
  obtain ⟨q, hq, hsucc', hnext⟩ := exists_runSteps_logins hsucc n
  refine ⟨q, ?_, hsucc', hcounter ▸ hnext⟩
  rw [loginRun, runSteps_cons, hp]
  exact hq

theorem usable_iff_loginRun : ∃ q, runSteps tokenStep firstTokens (loginRun 2) = some q ∧
    (Usable q.2 ↔ EveryStep tokenStep (fun _ p op => CanCount p op) firstTokens (loginRun 2)) := by
  obtain ⟨q, hq, -, -⟩ := exists_runSteps_loginRun 2
  exact ⟨q, hq, usable_iff hq⟩

/-- One login more, with the counter at the largest `int`. -/
theorem not_usable_of_loginRun {n : Nat} (hn : 1000 + Int32.ofNat n = Int32.maxValue) : ∃ q,
    runSteps tokenStep firstTokens (loginRun (n + 1)) = some q ∧ ¬ Usable q.2 := by
  obtain ⟨p, hp, hsucc, hnext⟩ := exists_runSteps_loginRun n
  obtain ⟨q, hq, -, -⟩ := exists_runSteps_loginRun (n + 1)
  refine ⟨q, hq, fun husable => ?_⟩
  have hsplit : loginRun (n + 1) = loginRun n ++ [.login (bytes "Alice") (bytes "1234")] := by
    rw [loginRun, loginRun, List.replicate_succ', List.cons_append]
  have hlt := canCount_of_usable hq husable (loginRun n) _ [] p hsplit hp hsucc
  rw [hnext, hn] at hlt
  exact absurd hlt (by decide)

/-- The login with the counter at the largest `int`, after 2147482647 others. -/
theorem not_usable_loginRun : ∃ q,
    runSteps tokenStep firstTokens (loginRun (2147482647 + 1)) = some q ∧ ¬ Usable q.2 :=
  not_usable_of_loginRun (by decide)

end BankSel4.System
