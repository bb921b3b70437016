import BankSel4.Bytes.Memory

/-!
# The AuthServer component

`auth.c`: the table of users, 50 records of a 32-byte name and a 32-byte PIN in one array, the
number of users and the token counter.

`authRegisterUser` copies its strings with `strcpy`, unchecked, so a string longer than its field
runs on into the bytes behind it: the PIN of the record, the next record, or past the array, which
is a `Fault`.  The stores of a call are part of its result.  `next_token_id` is a 32-bit `int`,
taken as wrapping around.
-/

namespace BankSel4.Auth

/-- `MAX_USERS`. -/
def maxUsers : Nat := 50
/-- `sizeof users[i].user`. -/
def fieldSize : Nat := 32
/-- `sizeof(struct UserRecord)`. -/
def recordSize : Nat := 64

/-- The static variables of the component. -/
structure State where
  /-- `users`. -/
  users : Mem (maxUsers * recordSize)
  /-- `num_users`. -/
  numUsers : Nat
  /-- `next_token_id`. -/
  nextTokenId : Int32

/-- The state the component starts in. -/
def State.init : State := ⟨Mem.zero, 0, 1000⟩

/-- The offset of `users[i].user`. -/
def userAddr (i : Nat) : Nat := recordSize * i

/-- The offset of `users[i].pin`. -/
def pinAddr (i : Nat) : Nat := recordSize * i + fieldSize

/-- What a call of `auth_register_user` leaves: the state, the returned value and its stores. -/
structure Registration where
  /-- The state after the call. -/
  state : State
  /-- The returned value. -/
  rc : Int32
  /-- The stores to `users`, in order. -/
  stores : List Block

/-- `auth_register_user`. -/
def authRegisterUser (s : State) (user pin : Str) : Except Fault Registration :=
  if maxUsers ≤ s.numUsers then .ok ⟨s, -1, []⟩
  else do
    -- neither copy is bounded by its field: the second may overwrite the end of the first
    let users ← s.users.perform (strcpy (userAddr s.numUsers) user)
    let users ← users.perform (strcpy (pinAddr s.numUsers) pin)
    .ok ⟨⟨users, s.numUsers + 1, s.nextTokenId⟩, 0,
      [strcpy (userAddr s.numUsers) user, strcpy (pinAddr s.numUsers) pin]⟩

/-- A registration that returns has found the table full, or has made its two stores. -/
theorem authRegisterUser_cases {s : State} {user pin : Str} {r : Registration}
    (h : authRegisterUser s user pin = .ok r) :
    (maxUsers ≤ s.numUsers ∧ r = ⟨s, -1, []⟩) ∨
      (s.numUsers < maxUsers ∧ ∃ users, r = ⟨⟨users, s.numUsers + 1, s.nextTokenId⟩, 0,
        [strcpy (userAddr s.numUsers) user, strcpy (pinAddr s.numUsers) pin]⟩) := by
  unfold authRegisterUser at h
  split_ifs at h with hfull
  · exact Or.inl ⟨hfull, (Except.ok.inj h).symm⟩
  · obtain ⟨named, -, h⟩ := except_bind_eq_ok.mp h
    obtain ⟨users, -, h⟩ := except_bind_eq_ok.mp h
    exact Or.inr ⟨Nat.lt_of_not_le hfull, users, (Except.ok.inj h).symm⟩

/-- A registration leaves the counter. -/
theorem nextTokenId_authRegisterUser {s : State} {user pin : Str} {r : Registration}
    (h : authRegisterUser s user pin = .ok r) : r.state.nextTokenId = s.nextTokenId := by
  rcases authRegisterUser_cases h with ⟨-, rfl⟩ | ⟨-, users, rfl⟩
  · rfl
  · rfl

/-- `strcmp(users[i].user, user) == 0 && strcmp(users[i].pin, pin) == 0`. -/
def recordMatches {n : Nat} (users : Mem n) (i : Nat) (user pin : Str) : Except Fault Bool := do
  let sameUser ← users.strcmpEq (userAddr i) user
  if sameUser then users.strcmpEq (pinAddr i) pin else .ok false

/-- The loop of `auth_login`, with `k` records left from `i` on. -/
def searchFrom {n : Nat} (users : Mem n) (user pin : Str) : Nat → Nat → Except Fault Bool
  | 0, _ => .ok false
  | k + 1, i => do
    let hit ← recordMatches users i user pin
    if hit then .ok true else searchFrom users user pin k (i + 1)

/-- `auth_login`: the state and the returned value. -/
def authLogin (s : State) (user pin : Str) : Except Fault (State × Int32) := do
  let hit ← searchFrom s.users user pin s.numUsers 0
  .ok (if hit then (⟨s.users, s.numUsers, s.nextTokenId + 1⟩, s.nextTokenId + 1) else (s, -1))

/-- A login that returns has found its credentials and counted up, or has changed nothing. -/
theorem authLogin_cases {s : State} {user pin : Str} {r : State × Int32}
    (h : authLogin s user pin = .ok r) :
    (searchFrom s.users user pin s.numUsers 0 = .ok true ∧
        r = (⟨s.users, s.numUsers, s.nextTokenId + 1⟩, s.nextTokenId + 1)) ∨
      (searchFrom s.users user pin s.numUsers 0 = .ok false ∧ r = (s, -1)) := by
  obtain ⟨hit, hsearch, h⟩ := except_bind_eq_ok.mp h
  obtain rfl := Except.ok.inj h
  cases hit with
  | false => exact Or.inr ⟨hsearch, rfl⟩
  | true => exact Or.inl ⟨hsearch, rfl⟩

/-! ### The component as a step function -/

/-- A call of the Auth interface. -/
inductive Op where
  | registerUser (user pin : Str)
  | login (user pin : Str)
  deriving DecidableEq, Repr

/-- The reply to a call: the returned value, and the stores made on the way. -/
structure Reply where
  rc : Int32
  stores : List Block
  deriving DecidableEq, Repr

/-- One call, without a successor where the call faults. -/
def step (s : State) : Op → Option (State × Reply)
  | .registerUser user pin =>
    (authRegisterUser s user pin).toOption.map fun r => (r.state, ⟨r.rc, r.stores⟩)
  | .login user pin => (authLogin s user pin).toOption.map fun r => (r.1, ⟨r.2, []⟩)

end BankSel4.Auth
