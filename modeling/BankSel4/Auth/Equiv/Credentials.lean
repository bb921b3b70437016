import BankSel4.Algorithm.Registry
import BankSel4.Algorithm.Run
import BankSel4.Auth.Users

/-!
# Which logins the AuthServer accepts

`Refines s r`: the table of `s` holds the entries of the registry `r`.  A registration whose stores
stay inside its record (`InRecord`) leaves the PIN as given, and as the name the string
`storedUser`: the name itself when it fits its field, else its first 32 bytes followed by the PIN,
which was copied over the rest of it.  So a record stands for the registered credentials exactly
when `storedUser user pin = user`; together with `InRecord` that is `Fits`.

The counter of the tokens is at 1000 plus the logins made with registered credentials
(`nextTokenId_of_fits`), so after 2^32 - 1002 of them the next token is -1, the error value.

`credentialsExact_iff`: in a history of calls the AuthServer accepts exactly the registered
credentials, keeps exactly the first 50 registrations and stores inside the record it adds, exactly
when every kept registration fits and the counter does not come that far.
-/

namespace BankSel4.Auth

/-- The stores of the registration stay inside its record. -/
def InRecord (user pin : Str) : Prop := user.length < recordSize ∧ pin.length < fieldSize

instance (user pin : Str) : Decidable (InRecord user pin) := inferInstanceAs (Decidable (_ ∧ _))

/-- The string at `users[i].user` after a registration: past 32 bytes it runs into the PIN. -/
def storedUser (user pin : Str) : Str :=
  if user.length < fieldSize then user else user.take fieldSize ++ pin

/-- The PIN fits its field, and so does the name, or what it overflows with is the PIN itself. -/
def Fits (user pin : Str) : Prop :=
  pin.length < fieldSize ∧ (user.length < fieldSize ∨ user.drop fieldSize = pin)

instance (user pin : Str) : Decidable (Fits user pin) := inferInstanceAs (Decidable (_ ∧ _))

theorem storedUser_eq_iff {user pin : Str} :
    storedUser user pin = user ↔ user.length < fieldSize ∨ user.drop fieldSize = pin := by
  unfold storedUser
  by_cases h : user.length < fieldSize
  · simp [h]
  · rw [if_neg h, or_iff_right h]
    conv_lhs => rhs; rw [← List.take_append_drop fieldSize user]
    rw [List.append_cancel_left_eq]
    exact eq_comm

theorem fits_iff {user pin : Str} :
    Fits user pin ↔ InRecord user pin ∧ storedUser user pin = user := by
  rw [storedUser_eq_iff, Fits, InRecord]
  have hrec : recordSize = fieldSize + 32 := rfl
  have hfield : fieldSize = 32 := rfl
  constructor
  · rintro ⟨hpin, huser⟩
    refine ⟨⟨?_, hpin⟩, huser⟩
    rcases huser with hlt | hdrop
    · omega
    · have := congrArg List.length hdrop
      rw [List.length_drop] at this
      omega
  · rintro ⟨⟨-, hpin⟩, huser⟩
    exact ⟨hpin, huser⟩

theorem noNul_storedUser {user pin : Str} (hu : NoNul user) (hp : NoNul pin) :
    NoNul (storedUser user pin) := by
  unfold storedUser
  split_ifs
  · exact hu
  · exact noNul_append.mpr ⟨fun h => hu (List.mem_of_mem_take h), hp⟩

theorem storedUser_length_lt {user pin : Str} (h : InRecord user pin) :
    (storedUser user pin).length < recordSize := by
  have hrec : recordSize = 64 := rfl
  have hfield : fieldSize = 32 := rfl
  obtain ⟨hu, hp⟩ := h
  unfold storedUser
  split_ifs with hlt
  · exact hu
  · rw [List.length_append, List.length_take]
    omega

/-! ### The table and the registry -/

/-- The table of `s` holds the entries of `r`. -/
structure Refines (s : State) (r : Registry (Str × Str) maxUsers) : Prop where
  numUsers_eq : s.numUsers = r.entries.length
  holds_user : ∀ i (h : i < r.entries.length),
    s.users.Holds (userAddr i) (storedUser r.entries[i].1 r.entries[i].2 ++ [0])
  holds_pin : ∀ i (h : i < r.entries.length), s.users.Holds (pinAddr i) (r.entries[i].2 ++ [0])
  inRecord : ∀ k ∈ r.entries, InRecord k.1 k.2
  noNul : ∀ k ∈ r.entries, NoNul k.1 ∧ NoNul k.2

theorem refines_init : Refines State.init Registry.empty where
  numUsers_eq := rfl
  holds_user i h := absurd h (Nat.not_lt_zero i)
  holds_pin i h := absurd h (Nat.not_lt_zero i)
  inRecord _ hk := absurd hk List.not_mem_nil
  noNul _ hk := absurd hk List.not_mem_nil

/-! ### `auth_login` -/

/-- The record of the registration `k` stands for the credentials. -/
def standsFor (user pin : Str) (k : Str × Str) : Bool :=
  decide (storedUser k.1 k.2 = user ∧ k.2 = pin)

theorem recordMatches_spec {s : State} {r : Registry (Str × Str) maxUsers} (h : Refines s r)
    {user pin : Str} (hu : NoNul user) (hp : NoNul pin) {i : Nat} (hi : i < r.entries.length) :
    recordMatches s.users i user pin = .ok (standsFor user pin r.entries[i]) := by
  obtain ⟨hku, hkp⟩ := h.noNul _ (List.getElem_mem hi)
  rw [recordMatches, Mem.strcmpEq_of_holds (h.holds_user i hi) (noNul_storedUser hku hkp) hu,
    Mem.strcmpEq_of_holds (h.holds_pin i hi) hkp hp, standsFor]
  by_cases heq : storedUser r.entries[i].1 r.entries[i].2 = user <;>
    simp [bind, Except.bind, heq]

/-- The loop finds whether one of the records matches. -/
theorem searchFrom_spec {n : Nat} (users : Mem n) (user pin : Str) (hit : Nat → Bool) (k i : Nat)
    (h : ∀ j, i ≤ j → j < i + k → recordMatches users j user pin = .ok (hit j)) :
    searchFrom users user pin k i = .ok ((List.range' i k).any hit) := by
  -- on the records left, as in the loop
  induction k generalizing i with
  | zero => rfl
  | succ k ih =>
    rw [searchFrom, h i le_rfl (by omega), ih (i + 1) fun j h1 h2 => h j (by omega) (by omega),
      List.range'_succ, List.any_cons]
    cases hit i <;> rfl

theorem any_range'_getElem? {α : Type*} (l : List α) (p : α → Bool) :
    ((List.range' 0 l.length).any fun j => l[j]?.any p) = l.any p := by
  rw [Bool.eq_iff_iff, List.any_eq_true, List.any_eq_true]
  constructor
  · rintro ⟨j, -, hj⟩
    cases hk : l[j]? with
    | none => simp [hk] at hj
    | some k => exact ⟨k, List.mem_of_getElem? hk, by simpa [hk] using hj⟩
  · rintro ⟨k, hk, hp⟩
    obtain ⟨j, hj, rfl⟩ := List.getElem_of_mem hk
    exact ⟨j, by simpa [List.mem_range'_1] using hj, by simpa [hj] using hp⟩

/-- **`auth_login`** issues the next token when a record stands for the credentials, and refuses
otherwise. -/
theorem authLogin_spec {s : State} {r : Registry (Str × Str) maxUsers} (h : Refines s r)
    {user pin : Str} (hu : NoNul user) (hp : NoNul pin) :
    authLogin s user pin = .ok (if r.entries.any (standsFor user pin)
      then (⟨s.users, s.numUsers, s.nextTokenId + 1⟩, s.nextTokenId + 1) else (s, -1)) := by
  have hsearch := searchFrom_spec s.users user pin
    (fun j => r.entries[j]?.any (standsFor user pin)) r.entries.length 0 fun j _ hj => by
      rw [recordMatches_spec h hu hp (by omega), List.getElem?_eq_getElem (by omega)]
      rfl
  rw [authLogin, h.numUsers_eq, hsearch, any_range'_getElem?]
  rfl

/-! ### `auth_register_user` -/

/-- The stores of an accepted registration stay inside its record exactly when its strings do. -/
theorem stores_within_iff (n : Nat) (user pin : Str) :
    (∀ w ∈ [strcpy (userAddr n) user, strcpy (pinAddr n) pin],
      w.Within (recordSize * n) (recordSize * (n + 1))) ↔ InRecord user pin := by
  have hrec : recordSize = 64 := rfl
  have hfield : fieldSize = 32 := rfl
  simp only [List.forall_mem_cons, List.not_mem_nil, false_implies, implies_true, and_true,
    Block.Within, strcpy_addr, strcpy_data, List.length_append, List.length_singleton, userAddr,
    pinAddr, InRecord, hrec, hfield]
  push_cast
  omega

/-- The table after the stores of a registration in record `n`. -/
def written {N : Nat} (users : Mem N) (n : Nat) (user pin : Str) : Mem N :=
  (users.store (userAddr n) (user ++ [0])).store (pinAddr n) (pin ++ [0])

section Written

variable {users : Mem (maxUsers * recordSize)} {n : Nat} {user pin : Str}

theorem user_fits (hn : n < maxUsers) (hin : InRecord user pin) :
    userAddr n + (user ++ [0]).length ≤ maxUsers * recordSize := by
  have := hin.1
  unfold maxUsers at *
  unfold userAddr recordSize at *
  rw [List.length_append, List.length_singleton]
  omega

theorem pin_fits (hn : n < maxUsers) (hin : InRecord user pin) :
    pinAddr n + (pin ++ [0]).length ≤ maxUsers * recordSize := by
  have := hin.2
  unfold maxUsers at *
  unfold pinAddr recordSize
  unfold fieldSize at *
  rw [List.length_append, List.length_singleton]
  omega

/-- The records below are not touched. -/
theorem holds_written_of_le (hn : n < maxUsers) (hin : InRecord user pin) {off : Nat} {bs : Str}
    (h : users.Holds off bs) (hoff : off + bs.length ≤ userAddr n) :
    (written users n user pin).Holds off bs :=
  (h.store (user_fits hn hin) (Or.inl hoff)).store (pin_fits hn hin)
    (Or.inl (by unfold pinAddr; unfold userAddr at hoff; omega))

theorem holds_written_pin (hn : n < maxUsers) (hin : InRecord user pin) :
    (written users n user pin).Holds (pinAddr n) (pin ++ [0]) :=
  Mem.holds_store _ (pin_fits hn hin)

/-- At the name there is the name, or its first 32 bytes and the PIN. -/
theorem holds_written_user (hn : n < maxUsers) (hin : InRecord user pin) :
    (written users n user pin).Holds (userAddr n) (storedUser user pin ++ [0]) := by
  have hname := Mem.holds_store users (user_fits hn hin)
  unfold storedUser
  split_ifs with hlt
  · refine hname.store (pin_fits hn hin) (Or.inl ?_)
    rw [List.length_append, List.length_singleton, userAddr, pinAddr]
    omega
  -- the PIN is copied over what the name has written behind its field
  · have htake : (user.take fieldSize).length = fieldSize := by
      rw [List.length_take]
      omega
    rw [← List.take_append_drop fieldSize user, List.append_assoc, Mem.holds_append] at hname
    rw [List.append_assoc, Mem.holds_append, htake]
    refine ⟨?_, holds_written_pin hn hin⟩
    rw [← List.append_assoc, List.take_append_drop] at hname
    exact hname.1.store (pin_fits hn hin) (Or.inl (by rw [htake]; rfl))

end Written

/-- **`auth_register_user`** adds the entry when the table has room and the strings stay inside the
record. -/
theorem authRegisterUser_spec {s : State} {r : Registry (Str × Str) maxUsers} (h : Refines s r)
    {user pin : Str} (hu : NoNul user) (hp : NoNul pin) (hroom : r.entries.length < maxUsers)
    (hin : InRecord user pin) :
    ∃ s', authRegisterUser s user pin = .ok ⟨s', 0,
        [strcpy (userAddr r.entries.length) user, strcpy (pinAddr r.entries.length) pin]⟩ ∧
      s'.nextTokenId = s.nextTokenId ∧ Refines s' (r.register (user, pin)) := by
  have hreg := Registry.register_of_lt (k := (user, pin)) hroom
  have hcases : ∀ {i}, i < (r.register (user, pin)).entries.length →
      i < r.entries.length ∨ i = r.entries.length := by
    intro i hi
    rw [hreg, List.length_append, List.length_singleton] at hi
    omega
  refine ⟨⟨written s.users r.entries.length user pin, r.entries.length + 1, s.nextTokenId⟩,
    ?_, rfl, ?_, fun i hi => ?_, fun i hi => ?_, ?_, ?_⟩
  · have hw : ∀ (addr : Nat) (str : Str), addr + (str ++ [0]).length ≤ maxUsers * recordSize →
        (strcpy addr str).Within 0 (maxUsers * recordSize : Nat) := fun addr str hfit =>
      ⟨Int.natCast_nonneg _, by rw [strcpy_addr, strcpy_data]; exact_mod_cast hfit⟩
    rw [authRegisterUser, h.numUsers_eq, if_neg (by omega),
      Mem.perform_of_within _ (hw _ _ (user_fits hroom hin))]
    simp only [bind, Except.bind, Mem.perform_of_within _ (hw _ _ (pin_fits hroom hin)),
      strcpy_addr, strcpy_data, Int.toNat_natCast, written]
  · rw [hreg, List.length_append]
    rfl
  · simp only [hreg]
    rcases hcases hi with hlt | rfl
    · rw [List.getElem_append_left hlt]
      refine holds_written_of_le hroom hin (h.holds_user i hlt) ?_
      have := storedUser_length_lt (h.inRecord _ (List.getElem_mem hlt))
      unfold userAddr recordSize at *
      rw [List.length_append, List.length_singleton]
      omega
    · rw [List.getElem_concat_length rfl]
      exact holds_written_user hroom hin
  · simp only [hreg]
    rcases hcases hi with hlt | rfl
    · rw [List.getElem_append_left hlt]
      refine holds_written_of_le hroom hin (h.holds_pin i hlt) ?_
      have := (h.inRecord _ (List.getElem_mem hlt)).2
      unfold userAddr pinAddr recordSize fieldSize at *
      rw [List.length_append, List.length_singleton]
      omega
    · rw [List.getElem_concat_length rfl]
      exact holds_written_pin hroom hin
  · rw [hreg]
    exact List.forall_mem_append.mpr ⟨h.inRecord, by simpa using hin⟩
  · rw [hreg]
    exact List.forall_mem_append.mpr ⟨h.noNul, by simpa using ⟨hu, hp⟩⟩

/-- An accepted registration makes its two stores, wherever they land. -/
theorem stores_of_authRegisterUser {s : State} {user pin : Str} {reg : Registration}
    (hroom : s.numUsers < maxUsers) (h : authRegisterUser s user pin = .ok reg) :
    reg.stores = [strcpy (userAddr s.numUsers) user, strcpy (pinAddr s.numUsers) pin] := by
  rcases authRegisterUser_cases h with ⟨hfull, -⟩ | ⟨-, users, rfl⟩
  · exact absurd hroom (Nat.not_lt.mpr hfull)
  · rfl

/-! ### Histories -/

/-- A word of a request: not empty, without NUL and without a space. -/
def Word (s : Str) : Prop := s ≠ [] ∧ NoNul s ∧ (32 : UInt8) ∉ s

instance (s : Str) : Decidable (Word s) := inferInstanceAs (Decidable (_ ∧ _))

/-- The calls the Gateway can make: two words, of a request of less than 512 bytes. -/
def Op.FromGateway : Op → Prop
  | .registerUser user pin => Word user ∧ Word pin ∧
      (bytes "register ").length + user.length + 1 + pin.length < 512
  | .login user pin => Word user ∧ Word pin ∧
      (bytes "login ").length + user.length + 1 + pin.length < 512

instance : DecidablePred Op.FromGateway := fun op => by
  cases op <;> unfold Op.FromGateway <;> infer_instance

theorem take_snoc_of_lt {α : Type*} {l : List α} {n : Nat} (h : l.length < n) (a : α) :
    (l ++ [a]).take n = l.take n ++ [a] := by
  rw [List.take_of_length_le (Nat.le_of_lt h),
    List.take_of_length_le (by rw [List.length_append]; exact h)]

/-- The registrations of a history, in order. -/
def registrations (ops : List Op) : List (Str × Str) :=
  ops.filterMap fun
    | .registerUser user pin => some (user, pin)
    | .login _ _ => none

@[simp] theorem registrations_snoc_registerUser (ops : List Op) (user pin : Str) :
    registrations (ops ++ [.registerUser user pin]) = registrations ops ++ [(user, pin)] :=
  List.filterMap_append

@[simp] theorem registrations_snoc_login (ops : List Op) (user pin : Str) :
    registrations (ops ++ [.login user pin]) = registrations ops := by
  rw [registrations, List.filterMap_append]
  exact List.append_nil _

/-- Some call of the log registered the credentials and returned 0. -/
def Registered (log : List (Op × Reply)) (user pin : Str) : Prop :=
  ∃ stores, (Op.registerUser user pin, Reply.mk 0 stores) ∈ log

/-- A login after the log returns a token exactly for registered credentials, which is the next one
of the counter, and -1 for others. -/
def LoginExact (log : List (Op × Reply)) (s : State) (user pin : Str) : Prop :=
  ∃ s' rc, step s (.login user pin) = some (s', ⟨rc, []⟩) ∧
    (rc ≠ -1 ↔ Registered log user pin) ∧
    (rc = s.nextTokenId + 1 ∧ s'.nextTokenId = rc ∨ rc = -1 ∧ s' = s)

/-- A registration after the calls `pre` returns 0 exactly if it is among the first 50, and makes
its stores inside the record it adds. -/
def RegisterExact (pre : List Op) (s : State) (user pin : Str) : Prop :=
  ∃ s' rc stores, step s (.registerUser user pin) = some (s', ⟨rc, stores⟩) ∧
    (rc = 0 ↔ (registrations pre).length < maxUsers) ∧
    ∀ w ∈ stores, w.Within (recordSize * (registrations pre).length)
      (recordSize * ((registrations pre).length + 1))

/-- In the history `ops`: every call returns, every registration is served exactly, and so is, after
every prefix, every login there could be. -/
def CredentialsExact (ops : List Op) : Prop :=
  ∀ pre post, ops = pre ++ post →
    ∃ s log, runSteps (withLog step) (State.init, []) pre = some (s, log) ∧
      (∀ user pin, (Op.login user pin).FromGateway → LoginExact log s user pin) ∧
      ∀ user pin post', post = .registerUser user pin :: post' → RegisterExact pre s user pin

/-- How many of the logins give credentials that were registered and kept before them, when those of
`regs` are registered at the start. -/
def validLoginsFrom (regs : List (Str × Str)) : List Op → Nat
  | [] => 0
  | .registerUser user pin :: ops => validLoginsFrom (regs ++ [(user, pin)]) ops
  | .login user pin :: ops =>
    (if (regs.take maxUsers).contains (user, pin) then 1 else 0) + validLoginsFrom regs ops

/-- How many logins of the history give credentials that were registered and kept before them. -/
def validLogins (ops : List Op) : Nat := validLoginsFrom [] ops

/-- The table holds the kept registrations, and the log says which they are. -/
structure Inv (pre : List Op) (q : State × List (Op × Reply)) : Prop where
  refines : Refines q.1 (Registry.ofEntries (registrations pre))
  registered_iff : ∀ user pin, Registered q.2 user pin ↔
    (user, pin) ∈ (registrations pre).take maxUsers

theorem inv_init : Inv [] (State.init, []) where
  refines := refines_init
  registered_iff user pin := by simp [Registered, registrations]

theorem Inv.numUsers_eq {pre : List Op} {q : State × List (Op × Reply)} (h : Inv pre q) :
    q.1.numUsers = min maxUsers (registrations pre).length := by
  rw [h.refines.numUsers_eq, Registry.entries_ofEntries, List.length_take]

/-- What a call may assume: strings of C, and a registration that is kept stays in its record. -/
def Guard (pre : List Op) (_ : State × List (Op × Reply)) : Op → Prop
  | .registerUser user pin => NoNul user ∧ NoNul pin ∧
      ((registrations pre).length < maxUsers → InRecord user pin)
  | .login user pin => NoNul user ∧ NoNul pin

theorem registered_snoc {log : List (Op × Reply)} {e : Op × Reply} {user pin : Str} :
    Registered (log ++ [e]) user pin ↔
      Registered log user pin ∨ (e.1 = .registerUser user pin ∧ e.2.rc = 0) := by
  obtain ⟨op, rc, stores⟩ := e
  constructor
  · rintro ⟨st, hmem⟩
    rcases List.mem_append.mp hmem with h | h
    · exact Or.inl ⟨st, h⟩
    · obtain ⟨rfl, hr⟩ := Prod.mk.inj (List.mem_singleton.mp h)
      exact Or.inr ⟨rfl, (congrArg Reply.rc hr).symm⟩
  · rintro (⟨st, h⟩ | ⟨rfl, rfl⟩)
    · exact ⟨st, List.mem_append_left _ h⟩
    · exact ⟨stores, List.mem_append_right _ (List.mem_singleton_self _)⟩

/-- A registration, kept or not, under the invariant. -/
theorem Inv.registerUser {pre : List Op} {q : State × List (Op × Reply)} (h : Inv pre q)
    {user pin : Str} (hu : NoNul user) (hp : NoNul pin)
    (hin : (registrations pre).length < maxUsers → InRecord user pin) :
    ∃ s' rc stores, step q.1 (.registerUser user pin) = some (s', ⟨rc, stores⟩) ∧
      Inv (pre ++ [.registerUser user pin]) (s', q.2 ++ [(.registerUser user pin, ⟨rc, stores⟩)]) ∧
      RegisterExact pre q.1 user pin := by
  by_cases hroom : (registrations pre).length < maxUsers
  · have hlen : (Registry.ofEntries (registrations pre) : Registry _ maxUsers).entries.length
        = (registrations pre).length := by
      rw [Registry.entries_ofEntries, List.length_take]
      omega
    obtain ⟨s', hs, -, href⟩ := authRegisterUser_spec h.refines hu hp (by omega) (hin hroom)
    rw [hlen] at hs
    have hstep : step q.1 (.registerUser user pin) = some (s', ⟨0,
        [strcpy (userAddr (registrations pre).length) user,
          strcpy (pinAddr (registrations pre).length) pin]⟩) := by
      rw [step, hs]
      rfl
    refine ⟨s', 0, _, hstep, ⟨?_, fun u p => ?_⟩, s', 0, _, hstep, by simpa using hroom,
      (stores_within_iff _ _ _).mpr (hin hroom)⟩
    · rw [registrations_snoc_registerUser, Registry.ofEntries_snoc]
      exact href
    · rw [registered_snoc, h.registered_iff, registrations_snoc_registerUser,
        take_snoc_of_lt hroom, List.mem_append, List.mem_singleton]
      simp [eq_comm]
  · have hfull : step q.1 (.registerUser user pin) = some (q.1, ⟨-1, []⟩) := by
      have := h.numUsers_eq
      rw [step, authRegisterUser, if_pos (by omega)]
      rfl
    refine ⟨q.1, -1, [], hfull, ⟨?_, fun u p => ?_⟩, q.1, -1, [], hfull, by simpa using hroom,
      by simp⟩
    · rw [registrations_snoc_registerUser, Registry.ofEntries_snoc, Registry.register_of_le]
      · exact h.refines
      · rw [Registry.entries_ofEntries, List.length_take]
        omega
    · rw [registered_snoc, h.registered_iff, registrations_snoc_registerUser,
        List.take_append_of_le_length (by omega)]
      simp

/-- A login, under the invariant. -/
theorem Inv.login {pre : List Op} {q : State × List (Op × Reply)} (h : Inv pre q)
    {user pin : Str} (hu : NoNul user) (hp : NoNul pin) :
    step q.1 (.login user pin) = some
      (if ((registrations pre).take maxUsers).any (standsFor user pin)
        then (⟨q.1.users, q.1.numUsers, q.1.nextTokenId + 1⟩, ⟨q.1.nextTokenId + 1, []⟩)
        else (q.1, ⟨-1, []⟩)) := by
  rw [step, authLogin_spec h.refines hu hp, Registry.entries_ofEntries]
  split_ifs <;> rfl

theorem Refines.of_users {s s' : State} {r : Registry (Str × Str) maxUsers} (h : Refines s r)
    (husers : s'.users = s.users) (hnum : s'.numUsers = s.numUsers) : Refines s' r where
  numUsers_eq := hnum.trans h.numUsers_eq
  holds_user := husers ▸ h.holds_user
  holds_pin := husers ▸ h.holds_pin
  inRecord := h.inRecord
  noNul := h.noNul

/-- A login does not touch the table. -/
theorem Inv.snoc_login {pre : List Op} {q : State × List (Op × Reply)} (h : Inv pre q) {s' : State}
    {user pin : Str} {reply : Reply} (husers : s'.users = q.1.users)
    (hnum : s'.numUsers = q.1.numUsers) :
    Inv (pre ++ [.login user pin]) (s', q.2 ++ [(.login user pin, reply)]) where
  refines := by
    rw [registrations_snoc_login]
    exact h.refines.of_users husers hnum
  registered_iff u p := by
    rw [registered_snoc, registrations_snoc_login, ← h.registered_iff]
    exact or_iff_left fun hreg => Op.noConfusion hreg.1

/-- Every call the guard admits returns, and keeps the invariant. -/
theorem Inv.step {pre : List Op} {q : State × List (Op × Reply)} (h : Inv pre q) {op : Op}
    (hg : Guard pre q op) : ∃ q', withLog step q op = some q' ∧ Inv (pre ++ [op]) q' := by
  cases op with
  | registerUser user pin =>
    obtain ⟨s', rc, stores, hs, hinv, -⟩ := h.registerUser hg.1 hg.2.1 hg.2.2
    exact ⟨_, withLog_of_step hs, hinv⟩
  | login user pin =>
    have hs := h.login hg.1 hg.2
    split_ifs at hs
    · exact ⟨_, withLog_of_step hs, h.snoc_login rfl rfl⟩
    · exact ⟨_, withLog_of_step hs, h.snoc_login rfl rfl⟩

theorem registrations_append_registerUser (pre post : List Op) (user pin : Str) :
    registrations (pre ++ .registerUser user pin :: post) =
      registrations pre ++ (user, pin) :: registrations post := List.filterMap_append

/-- A registration that finds room is kept. -/
theorem mem_take_registrations {pre post : List Op} {user pin : Str}
    (hroom : (registrations pre).length < maxUsers) :
    (user, pin) ∈ (registrations (pre ++ .registerUser user pin :: post)).take maxUsers := by
  rw [registrations_append_registerUser, List.take_append,
    List.take_of_length_le (Nat.le_of_lt hroom)]
  obtain ⟨n, hn⟩ := Nat.exists_eq_add_of_lt hroom
  rw [show maxUsers - (registrations pre).length = n + 1 by omega, List.take_succ_cons]
  simp

theorem mem_take_registrations_append {pre post : List Op} {k : Str × Str}
    (hk : k ∈ (registrations pre).take maxUsers) :
    k ∈ (registrations (pre ++ post)).take maxUsers := by
  rw [registrations, List.filterMap_append, List.take_append]
  exact List.mem_append_left _ hk

/-- A call with strings of C. -/
def Op.CStrings : Op → Prop
  | .registerUser user pin | .login user pin => NoNul user ∧ NoNul pin

/-- A run whose kept registrations stay in their records returns from every call. -/
theorem exists_run_of_cStrings (ops : List Op) (hops : ∀ op ∈ ops, op.CStrings)
    (hin : ∀ k ∈ (registrations ops).take maxUsers, InRecord k.1 k.2) :
    ∃ q, runSteps (withLog step) (State.init, []) ops = some q ∧ Inv ops q := by
  refine exists_runSteps (P := Guard) inv_init (fun pre t a _ hI hP => hI.step hP) ?_
  rintro pre op post t rfl -
  have hop := hops op (by simp)
  cases op with
  | login user pin => exact hop
  | registerUser user pin =>
    exact ⟨hop.1, hop.2, fun hroom => hin _ (mem_take_registrations hroom)⟩

theorem Op.FromGateway.cStrings {op : Op} (h : op.FromGateway) : op.CStrings := by
  cases op with
  | registerUser user pin => exact ⟨h.1.2.1, h.2.1.2.1⟩
  | login user pin => exact ⟨h.1.2.1, h.2.1.2.1⟩

theorem exists_run (ops : List Op) (hops : ∀ op ∈ ops, op.FromGateway)
    (hin : ∀ k ∈ (registrations ops).take maxUsers, InRecord k.1 k.2) :
    ∃ q, runSteps (withLog step) (State.init, []) ops = some q ∧ Inv ops q :=
  exists_run_of_cStrings ops (fun op hop => (hops op hop).cStrings) hin

/-- The records that stand for the credentials are those of their registration. -/
theorem any_standsFor_iff {ks : List (Str × Str)} (hfits : ∀ k ∈ ks, Fits k.1 k.2)
    {user pin : Str} : ks.any (standsFor user pin) = true ↔ (user, pin) ∈ ks := by
  rw [List.any_eq_true]
  constructor
  · rintro ⟨k, hk, hstands⟩
    obtain ⟨huser, hpin⟩ := of_decide_eq_true hstands
    rw [(fits_iff.mp (hfits k hk)).2] at huser
    rw [← huser, ← hpin]
    exact hk
  · intro hk
    exact ⟨_, hk, decide_eq_true ⟨(fits_iff.mp (hfits _ hk)).2, rfl⟩⟩

/-- Under the invariant a login is exact, when the records kept stand for their registrations and
the next token is not the error value. -/
theorem Inv.loginExact {pre : List Op} {q : State × List (Op × Reply)} (h : Inv pre q)
    (hfits : ∀ k ∈ (registrations pre).take maxUsers, Fits k.1 k.2)
    (hnext : q.1.nextTokenId + 1 ≠ -1) {user pin : Str} (hu : NoNul user) (hp : NoNul pin) :
    LoginExact q.2 q.1 user pin := by
  have hs := h.login hu hp
  by_cases hreg : Registered q.2 user pin
  · rw [if_pos ((any_standsFor_iff hfits).mpr ((h.registered_iff _ _).mp hreg))] at hs
    exact ⟨_, _, hs, iff_of_true hnext hreg, Or.inl ⟨rfl, rfl⟩⟩
  · rw [if_neg ((any_standsFor_iff hfits).not.mpr ((h.registered_iff _ _).not.mp hreg))] at hs
    exact ⟨_, _, hs, iff_of_false (fun hne => hne rfl) hreg, Or.inr ⟨rfl, rfl⟩⟩

/-! ### The counter -/

theorem validLoginsFrom_snoc (regs : List (Str × Str)) (pre : List Op) (op : Op) :
    validLoginsFrom regs (pre ++ [op]) =
      validLoginsFrom regs pre + validLoginsFrom (regs ++ registrations pre) [op] := by
  induction pre generalizing regs with
  | nil => simp [validLoginsFrom, registrations]
  | cons o pre ih =>
    cases o with
    | registerUser user pin =>
      rw [List.cons_append, validLoginsFrom, validLoginsFrom, ih, List.append_assoc]
      rfl
    | login user pin =>
      rw [List.cons_append, validLoginsFrom, validLoginsFrom, ih, ← Nat.add_assoc]
      rfl

theorem validLogins_mono {ops pre post : List Op} (hsplit : ops = pre ++ post) :
    validLogins pre ≤ validLogins ops := by
  subst hsplit
  induction post using List.reverseRecOn with
  | nil => rw [List.append_nil]
  | append_singleton post op ih =>
    have hsnoc : validLogins (pre ++ post ++ [op]) = validLogins (pre ++ post) + _ :=
      validLoginsFrom_snoc [] _ op
    rw [← List.append_assoc, hsnoc]
    exact Nat.le_add_right_of_le ih

@[simp] theorem validLogins_snoc_registerUser (pre : List Op) (user pin : Str) :
    validLogins (pre ++ [.registerUser user pin]) = validLogins pre := validLoginsFrom_snoc _ _ _

@[simp] theorem validLogins_snoc_login (pre : List Op) (user pin : Str) :
    validLogins (pre ++ [.login user pin]) = validLogins pre +
      if ((registrations pre).take maxUsers).contains (user, pin) then 1 else 0 := by
  rw [validLogins, validLoginsFrom_snoc]
  rfl

/-- The counter stands at 1000 and one more for every login with registered credentials. -/
theorem nextTokenId_of_fits {ops : List Op} (hops : ∀ op ∈ ops, op.CStrings)
    (hfits : ∀ k ∈ (registrations ops).take maxUsers, Fits k.1 k.2)
    {q : State × List (Op × Reply)} (hrun : runSteps (withLog step) (State.init, []) ops = some q) :
    q.1.nextTokenId = Int32.ofNat (1000 + validLogins ops) := by
  induction ops using List.reverseRecOn generalizing q with
  | nil =>
    obtain rfl := Option.some.inj hrun
    rfl
  | append_singleton pre op ih =>
    have hops' : ∀ o ∈ pre, o.CStrings := fun o ho => hops o (List.mem_append_left _ ho)
    have hfits' : ∀ k ∈ (registrations pre).take maxUsers, Fits k.1 k.2 :=
      fun k hk => hfits k (mem_take_registrations_append hk)
    obtain ⟨t, ht, hs⟩ := runSteps_snoc_eq_some.mp hrun
    obtain ⟨t', ht', hinv⟩ :=
      exists_run_of_cStrings pre hops' fun k hk => (fits_iff.mp (hfits' k hk)).1
    obtain rfl := Option.some.inj (ht.symm.trans ht')
    obtain ⟨r, hr, -⟩ := withLog_eq_some.mp hs
    cases op with
    | registerUser user pin =>
      obtain ⟨reg, hreg, heq⟩ := Option.map_eq_some_iff.mp hr
      have hq : reg.state = q.1 := congrArg Prod.fst heq
      rw [← hq, nextTokenId_authRegisterUser (toOption_eq_some.mp hreg), ih hops' hfits' ht,
        validLogins_snoc_registerUser]
    | login user pin =>
      obtain ⟨hu, hp⟩ := hops (.login user pin) (by simp)
      rw [hinv.login hu hp] at hr
      have hq := congrArg Prod.fst (Option.some.inj hr)
      rw [validLogins_snoc_login]
      by_cases hmem : (user, pin) ∈ (registrations pre).take maxUsers
      · rw [if_pos ((any_standsFor_iff hfits').mpr hmem)] at hq
        rw [if_pos (List.contains_iff_mem.mpr hmem), ← hq, ih hops' hfits' ht]
        exact (Int32.ofNat_add _ 1).symm
      · rw [if_neg ((any_standsFor_iff hfits').not.mpr hmem)] at hq
        rw [if_neg (List.contains_iff_mem.not.mpr hmem), ← hq, ih hops' hfits' ht, Nat.add_zero]

/-- The next token is not the error value before the counter has come round to -2. -/
theorem ofNat_next_ne {n : Nat} (h : n < 2 ^ 32 - 1002) : Int32.ofNat (1000 + n) + 1 ≠ -1 := by
  have hsucc : Int32.ofNat (1000 + n) + 1 = Int32.ofNat (1000 + n + 1) := (Int32.ofNat_add _ 1).symm
  have hsize : (Int32.size : Int) = 2 ^ 32 := rfl
  rw [hsucc, Ne, ← Int32.toInt_inj, Int32.toInt_ofNat', Int.bmod_def, hsize,
    show (-1 : Int32).toInt = -1 by decide]
  omega

/-- The count of the valid logins takes every value on the way. -/
theorem exists_validLogins_eq {ops : List Op} {n : Nat} (h : n ≤ validLogins ops) :
    ∃ pre post, ops = pre ++ post ∧ validLogins pre = n := by
  induction ops using List.reverseRecOn with
  | nil => exact ⟨[], [], rfl, (Nat.le_zero.mp h).symm⟩
  | append_singleton pre op ih =>
    by_cases hle : n ≤ validLogins pre
    · obtain ⟨pre', post, rfl, hn⟩ := ih hle
      exact ⟨pre', post ++ [op], by rw [List.append_assoc], hn⟩
    -- the last call has counted
    · refine ⟨pre ++ [op], [], (List.append_nil _).symm, ?_⟩
      cases op with
      | registerUser user pin =>
        rw [validLogins_snoc_registerUser] at h
        exact absurd h hle
      | login user pin =>
        rw [validLogins_snoc_login] at h ⊢
        split_ifs at h ⊢ <;> omega

/-- A login that counts is one with the credentials of a registration that is kept. -/
theorem exists_login_of_validLogins {ops : List Op} (h : 0 < validLogins ops) :
    ∃ user pin, .login user pin ∈ ops ∧ (user, pin) ∈ (registrations ops).take maxUsers := by
  induction ops using List.reverseRecOn with
  | nil => exact absurd h (Nat.lt_irrefl 0)
  | append_singleton pre op ih =>
    by_cases hpre : 0 < validLogins pre
    · obtain ⟨user, pin, hlogin, hreg⟩ := ih hpre
      exact ⟨user, pin, List.mem_append_left _ hlogin, mem_take_registrations_append hreg⟩
    · cases op with
      | registerUser user pin =>
        rw [validLogins_snoc_registerUser] at h
        exact absurd h hpre
      | login user pin =>
        rw [validLogins_snoc_login] at h
        split_ifs at h with hmem
        · exact ⟨user, pin, by simp,
            mem_take_registrations_append (List.contains_iff_mem.mp hmem)⟩
        · exact absurd h hpre

/-- A registration that is kept and served exactly stays in its record. -/
theorem RegisterExact.inRecord {pre : List Op} {q : State × List (Op × Reply)} {user pin : Str}
    (h : RegisterExact pre q.1 user pin) (hinv : Inv pre q)
    (hroom : (registrations pre).length < maxUsers) : InRecord user pin := by
  obtain ⟨s', rc, stores, hs, -, hwithin⟩ := h
  have hnum : q.1.numUsers = (registrations pre).length := by
    rw [hinv.numUsers_eq]
    omega
  rw [Auth.step, Option.map_eq_some_iff] at hs
  obtain ⟨reg, hreg, heq⟩ := hs
  obtain rfl : reg.stores = stores := congrArg (fun r => r.2.stores) heq
  have hstores := stores_of_authRegisterUser (hnum ▸ hroom) (toOption_eq_some.mp hreg)
  rw [hstores, hnum] at hwithin
  exact (stores_within_iff _ _ _).mp hwithin

/-- A login of the credentials registered last is exact only if the record stands for them. -/
theorem storedUser_eq_of_loginExact (pre : List Op) {q : State × List (Op × Reply)} {user pin : Str}
    (hinv : Inv (pre ++ [.registerUser user pin]) q)
    (hfits : ∀ k ∈ (registrations pre).take maxUsers, Fits k.1 k.2)
    (hroom : (registrations pre).length < maxUsers) (hu : NoNul user) (hp : NoNul pin)
    (h : LoginExact q.2 q.1 user pin) : storedUser user pin = user := by
  by_contra hne
  have hkept : (registrations (pre ++ [.registerUser user pin])).take maxUsers =
      (registrations pre).take maxUsers ++ [(user, pin)] := by
    rw [registrations_snoc_registerUser, take_snoc_of_lt hroom]
  -- no other record stands for the credentials, or it would be the same registration
  have hnone : ((registrations (pre ++ [.registerUser user pin])).take maxUsers).any
      (standsFor user pin) = false := by
    rw [hkept, List.any_append, Bool.or_eq_false_iff]
    refine ⟨List.any_eq_false.mpr fun k hk hstands => hne ?_, ?_⟩
    · obtain ⟨huser, hpin⟩ := of_decide_eq_true hstands
      have hk' := (fits_iff.mp (hfits k hk)).2
      have : k.1 = user := hk'.symm.trans huser
      rwa [this, hpin] at hk'
    · simpa [standsFor] using hne
  have hreg : Registered q.2 user pin := by
    rw [hinv.registered_iff, hkept]
    simp
  obtain ⟨s', rc, hs, hiff, -⟩ := h
  rw [hinv.login hu hp, hnone] at hs
  have hrc := congrArg (fun r => r.2.rc) (Option.some.inj hs)
  exact hiff.mpr hreg hrc.symm

/-- Along an exact history the registration that comes next fits, if it is kept. -/
theorem CredentialsExact.fits_snoc {ops pre post : List Op} {user pin : Str}
    (h : CredentialsExact ops) (hops : ∀ op ∈ ops, op.FromGateway)
    (hsplit : ops = pre ++ [.registerUser user pin] ++ post)
    (hfits : ∀ k ∈ (registrations pre).take maxUsers, Fits k.1 k.2) :
    ∀ k ∈ (registrations (pre ++ [.registerUser user pin])).take maxUsers, Fits k.1 k.2 := by
  rw [registrations_snoc_registerUser]
  by_cases hroom : (registrations pre).length < maxUsers
  · have hop := hops (.registerUser user pin) (by simp [hsplit])
    obtain ⟨hu, hp, hlen⟩ := hop
    have hkept := take_snoc_of_lt hroom (user, pin)
    -- the stores in the record say the lengths, the login after the call the name
    have hin : InRecord user pin := by
      obtain ⟨q, hq, hinv⟩ := exists_run _ (fun op hop => hops op (by simp [hsplit, hop]))
        fun k hk => (fits_iff.mp (hfits k hk)).1
      obtain ⟨s, log, hrun, -, hreg⟩ := h pre _ (by rw [hsplit, List.append_assoc])
      obtain rfl := Option.some.inj (hq.symm.trans hrun)
      exact (hreg user pin post rfl).inRecord hinv hroom
    obtain ⟨q, hq, hinv⟩ := exists_run (pre ++ [.registerUser user pin])
      (fun op hop => hops op (by rw [hsplit]; exact List.mem_append_left _ hop)) <| by
        rw [registrations_snoc_registerUser, hkept]
        exact List.forall_mem_append.mpr
          ⟨fun k hk => (fits_iff.mp (hfits k hk)).1, by simpa using hin⟩
    obtain ⟨s, log, hrun, hlogin, -⟩ := h (pre ++ [.registerUser user pin]) post hsplit
    obtain rfl := Option.some.inj (hq.symm.trans hrun)
    have hexact := hlogin user pin ⟨hu, hp, lt_of_le_of_lt (by gcongr; decide) hlen⟩
    have hfit : Fits user pin := fits_iff.mpr
      ⟨hin, storedUser_eq_of_loginExact _ hinv hfits hroom hu.2.1 hp.2.1 hexact⟩
    rw [hkept]
    exact List.forall_mem_append.mpr ⟨hfits, by simpa using hfit⟩
  · rw [List.take_append_of_le_length (by omega)]
    exact hfits

/-- Along an exact history the registrations that are kept fit. -/
theorem CredentialsExact.fits {ops : List Op} (h : CredentialsExact ops)
    (hops : ∀ op ∈ ops, op.FromGateway) :
    ∀ k ∈ (registrations ops).take maxUsers, Fits k.1 k.2 := by
  suffices hpre : ∀ pre post, ops = pre ++ post →
      ∀ k ∈ (registrations pre).take maxUsers, Fits k.1 k.2 from
    hpre ops [] (List.append_nil ops).symm
  intro pre
  -- one call after the other, since a call returns only if the registrations before it fit
  induction pre using List.reverseRecOn with
  | nil => simp [registrations]
  | append_singleton pre op ih =>
    intro post hsplit
    have hfits := ih (op :: post) (by rw [hsplit, List.append_assoc]; rfl)
    cases op with
    | login user pin =>
      rw [registrations_snoc_login]
      exact hfits
    | registerUser user pin =>
      exact h.fits_snoc hops hsplit hfits

/-- An exact history ends before the counter has come round to the error value. -/
theorem CredentialsExact.validLogins_lt {ops : List Op} (h : CredentialsExact ops)
    (hops : ∀ op ∈ ops, op.FromGateway) : validLogins ops < 2 ^ 32 - 1002 := by
  by_contra hge
  -- the point at which a registered login would be given -1
  obtain ⟨pre, post, hsplit, hcount⟩ := exists_validLogins_eq (Nat.le_of_not_lt hge)
  have hops' : ∀ op ∈ pre, op.FromGateway := fun op hop => hops op (by simp [hsplit, hop])
  have hfits : ∀ k ∈ (registrations pre).take maxUsers, Fits k.1 k.2 := fun k hk =>
    h.fits hops k (hsplit ▸ mem_take_registrations_append hk)
  obtain ⟨q, hq, hinv⟩ := exists_run pre hops' fun k hk => (fits_iff.mp (hfits k hk)).1
  have hpos : 0 < validLogins pre := by
    rw [hcount]
    decide
  obtain ⟨user, pin, hlogin, hkept⟩ := exists_login_of_validLogins hpos
  obtain ⟨s, log, hrun, hexact, -⟩ := h pre post hsplit
  obtain rfl := Option.some.inj (hq.symm.trans hrun)
  have hop := hops' _ hlogin
  obtain ⟨s', rc, hs, hiff, -⟩ := hexact user pin hop
  have hnext : s.nextTokenId = Int32.ofNat (1000 + validLogins pre) :=
    nextTokenId_of_fits (fun op hop => (hops' op hop).cStrings) hfits hq
  rw [hinv.login hop.1.2.1 hop.2.1.2.1, if_pos ((any_standsFor_iff hfits).mpr hkept), hnext,
    hcount] at hs
  have hrc := congrArg (fun r => r.2.rc) (Option.some.inj hs)
  have hwrap : Int32.ofNat (1000 + (2 ^ 32 - 1002)) + 1 = -1 := by decide
  exact hiff.mpr ((hinv.registered_iff _ _).mpr hkept) (hrc.symm.trans hwrap)

/-- **Logins for exactly the registered credentials.**  The AuthServer serves a history of Gateway
calls exactly if and only if every registration it keeps fits its record, and fewer logins with
registered credentials are made than it takes the counter to come round to -2. -/
theorem credentialsExact_iff {ops : List Op} (hops : ∀ op ∈ ops, op.FromGateway) :
    CredentialsExact ops ↔ (∀ k ∈ (registrations ops).take maxUsers, Fits k.1 k.2) ∧
      validLogins ops < 2 ^ 32 - 1002 := by
  constructor
  · exact fun h => ⟨h.fits hops, h.validLogins_lt hops⟩
  · rintro ⟨hfits, hcount⟩ pre post hsplit
    have hops' : ∀ op ∈ pre, op.FromGateway := fun op hop => hops op (by simp [hsplit, hop])
    have hkept : ∀ k ∈ (registrations pre).take maxUsers, Fits k.1 k.2 := fun k hk =>
      hfits k (hsplit ▸ mem_take_registrations_append hk)
    obtain ⟨⟨s, log⟩, hrun, hinv⟩ := exists_run _ hops' fun k hk => (fits_iff.mp (hkept k hk)).1
    have hnext : s.nextTokenId = Int32.ofNat (1000 + validLogins pre) :=
      nextTokenId_of_fits (fun op hop => (hops' op hop).cStrings) hkept hrun
    have hne : s.nextTokenId + 1 ≠ -1 := by
      rw [hnext]
      exact ofNat_next_ne (lt_of_le_of_lt (validLogins_mono hsplit) hcount)
    refine ⟨s, log, hrun,
      fun user pin hop => hinv.loginExact hkept hne hop.1.2.1 hop.2.1.2.1, ?_⟩
    rintro user pin post' rfl
    have hop := hops (.registerUser user pin) (by simp [hsplit])
    obtain ⟨-, -, -, -, -, hexact⟩ := hinv.registerUser hop.1.2.1 hop.2.1.2.1 fun hroom =>
      (fits_iff.mp (hfits (user, pin) (hsplit ▸ mem_take_registrations hroom))).1
    exact hexact

/-- A name of two letters and one that fills its field, each with a PIN of its own. -/
theorem credentialsExact_two_users :
    CredentialsExact [.registerUser (bytes "al") (bytes "1"),
      .registerUser (List.replicate 32 97 ++ bytes "77") (bytes "77"),
      .login (bytes "al") (bytes "1")] :=
  (credentialsExact_iff (by decide)).mpr ⟨by decide, by decide⟩

/-- A name of 33 letters, cut by its own PIN: the login with the registered credentials fails. -/
theorem not_credentialsExact_longName :
    ¬ CredentialsExact [.registerUser (List.replicate 33 97) (bytes "1")] := by
  intro h
  obtain ⟨q, hq, hinv⟩ := exists_run
    [.registerUser (List.replicate 33 97) (bytes "1")] (by decide) (by decide)
  obtain ⟨s, log, hrun, hlogin, -⟩ := h _ [] (List.append_nil _).symm
  obtain rfl := Option.some.inj (hq.symm.trans hrun)
  have hstored := storedUser_eq_of_loginExact [] hinv (by decide) (by decide) (by decide)
    (by decide) (hlogin (List.replicate 33 97) (bytes "1") (by decide))
  exact absurd hstored (by decide)

end BankSel4.Auth
