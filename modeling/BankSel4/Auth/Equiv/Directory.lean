import BankSel4.Auth.Equiv.Names

/-!
# The AuthServer as a directory

A `Directory` is what the AuthServer is for: the credentials registered so far, at most 50, and how
many tokens it has given out.  The tokens are numbered from 1001 on.  For strings that fit their
fields, and as long as the counter does not wrap around, the AuthServer is such a directory
(`Represents.step`).
-/

namespace BankSel4.Auth

/-- The credentials registered, and the number of the tokens given out. -/
structure Directory where
  registry : Registry (Str × Str) maxUsers
  issued : Nat

namespace Directory

/-- No credentials, and no tokens. -/
def empty : Directory := ⟨Registry.empty, 0⟩

/-- A call, and the value that it returns. -/
def step (d : Directory) : Op → Directory × Int
  | .registerUser user pin =>
    if d.registry.entries.length < maxUsers then
      (⟨d.registry.register (user, pin), d.issued⟩, 0)
    else (d, -1)
  | .login user pin =>
    if (user, pin) ∈ d.registry.entries then (⟨d.registry, d.issued + 1⟩, 1001 + d.issued)
    else (d, -1)

theorem issued_step_le (d : Directory) (op : Op) : (d.step op).1.issued ≤ d.issued + 1 := by
  cases op with
  | registerUser user pin =>
    rw [step]
    split_ifs <;> simp
  | login user pin =>
    rw [step]
    split_ifs <;> simp

end Directory

/-- The state holds the credentials of the directory, and counts its tokens. -/
structure Represents (s : State) (d : Directory) : Prop where
  refines : Refines s d.registry
  short : ∀ k ∈ d.registry.entries, Short k.1 ∧ Short k.2
  counter : s.nextTokenId.toInt = 1000 + d.issued

theorem represents_init : Represents State.init Directory.empty where
  refines := refines_init
  short _ hk := absurd hk List.not_mem_nil
  counter := by decide

section Represents

variable {s : State} {d : Directory} {user pin : Str}

/-- The records that stand for short strings are those of their registration. -/
theorem Represents.any_standsFor (h : Represents s d) :
    d.registry.entries.any (standsFor user pin) = true ↔ (user, pin) ∈ d.registry.entries :=
  any_standsFor_iff fun k hk => fits_of_short (h.short k hk).1 (h.short k hk).2

theorem Represents.registerUser (h : Represents s d) (hu : Short user) (hp : Short pin) :
    ∃ s' rc stores, step s (.registerUser user pin) = some (s', ⟨rc, stores⟩) ∧
      rc.toInt = (d.step (.registerUser user pin)).2 ∧
      Represents s' (d.step (.registerUser user pin)).1 := by
  rw [Directory.step]
  split_ifs with hroom
  · obtain ⟨s', hreg, hcounter, hrefines⟩ := authRegisterUser_spec h.refines hu.1 hp.1 hroom
      (fits_iff.mp (fits_of_short hu hp)).1
    refine ⟨s', 0, _, by rw [step, hreg]; rfl, rfl, hrefines, ?_, ?_⟩
    · rw [Registry.register_of_lt hroom]
      exact List.forall_mem_append.mpr ⟨h.short, by simpa using ⟨hu, hp⟩⟩
    · rw [hcounter]
      exact h.counter
  · have hfull : maxUsers ≤ s.numUsers := by
      rw [h.refines.numUsers_eq]
      omega
    have hreg : authRegisterUser s user pin = .ok ⟨s, -1, []⟩ := if_pos hfull
    exact ⟨s, -1, [], by rw [step, hreg]; rfl, rfl, h⟩

theorem Represents.login (h : Represents s d) (hissued : d.issued < 2 ^ 31 - 1001)
    (hu : Short user) (hp : Short pin) :
    ∃ s' rc stores, step s (.login user pin) = some (s', ⟨rc, stores⟩) ∧
      rc.toInt = (d.step (.login user pin)).2 ∧ Represents s' (d.step (.login user pin)).1 := by
  have hlogin := authLogin_spec h.refines hu.1 hp.1
  rw [Directory.step]
  split_ifs with hmem
  · rw [if_pos (h.any_standsFor.mpr hmem)] at hlogin
    have hone : (1 : Int32).toInt = 1 := rfl
    have hnext : (s.nextTokenId + 1).toInt = 1001 + d.issued := by
      rw [toInt_add_of_inRange] <;> rw [h.counter, hone] <;> omega
    refine ⟨_, s.nextTokenId + 1, [], by rw [step, hlogin]; rfl, hnext, ?_, h.short, ?_⟩
    · exact h.refines.of_users rfl rfl
    · rw [hnext]
      push_cast
      omega
  · rw [if_neg (h.any_standsFor.not.mpr hmem)] at hlogin
    exact ⟨s, -1, [], by rw [step, hlogin]; rfl, rfl, h⟩

/-- **The AuthServer is a directory**: every call returns what the directory returns. -/
theorem Represents.step (h : Represents s d) (hissued : d.issued < 2 ^ 31 - 1001) {op : Op}
    (hop : op.Short) : ∃ s' rc stores, Auth.step s op = some (s', ⟨rc, stores⟩) ∧
      rc.toInt = (d.step op).2 ∧ Represents s' (d.step op).1 := by
  cases op with
  | registerUser user pin => exact h.registerUser hop.1 hop.2
  | login user pin => exact h.login hissued hop.1 hop.2

end Represents

end BankSel4.Auth
