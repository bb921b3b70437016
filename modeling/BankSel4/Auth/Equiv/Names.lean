import BankSel4.Auth.Equiv.Credentials

/-!
# What a registration means for a name

Nothing in the AuthServer makes a name unique: `auth_register_user` adds a record whatever the
others hold, and `auth_login` compares the name and the PIN of every record.  So a name can be taken
over (`PinsKept`) by registering it again with another PIN, and the table then holds two records
with the one name (`UniqueNames`): `not_pinsKept_sameName`.

What does hold is `loginsAsRegistered`, for strings that fit their fields: a login succeeds exactly
with a name and a PIN that were registered together, until `next_token_id` has come round to the
error value.  A registration that returned 0 stays good whatever comes after it, and another PIN is
accepted for its name only once it was registered too.
-/

namespace BankSel4.Auth

/-- A string of at most 31 bytes. -/
def Short (s : Str) : Prop := NoNul s ∧ s.length ≤ 31

instance (s : Str) : Decidable (Short s) := inferInstanceAs (Decidable (_ ∧ _))

/-- A call with strings of at most 31 bytes. -/
def Op.Short : Op → Prop
  | .registerUser user pin => Auth.Short user ∧ Auth.Short pin
  | .login user pin => Auth.Short user ∧ Auth.Short pin

instance decidableShort : DecidablePred Op.Short
  | .registerUser .. | .login .. => inferInstanceAs (Decidable (_ ∧ _))

/-- Some record of the table holds the name and the PIN. -/
def State.HasRecord (s : State) (user pin : Str) : Prop :=
  ∃ i < s.numUsers, recordMatches s.users i user pin = .ok true

/-- After the history `ops`, a name that was registered is not let in with any other PIN. -/
def PinsKept (ops : List Op) : Prop :=
  ∀ s log, runSteps (withLog step) (State.init, []) ops = some (s, log) →
    ∀ user pin, Registered log user pin → ∀ pin', Short pin' → pin' ≠ pin →
      ∀ s' rc, step s (.login user pin') = some (s', ⟨rc, []⟩) → rc = -1

/-- After the history `ops`, no two records of the table have one name and different PINs. -/
def UniqueNames (ops : List Op) : Prop :=
  ∀ s log, runSteps (withLog step) (State.init, []) ops = some (s, log) →
    ∀ user pin pin', NoNul user → NoNul pin → NoNul pin' →
      s.HasRecord user pin → s.HasRecord user pin' → pin = pin'

/-- After the history `ops`, the records of the table are the registrations that returned 0, a login
with any others is refused, and one with these is given a token until the counter has come round to
the error value. -/
def LoginsAsRegistered (ops : List Op) : Prop :=
  ∃ s log, runSteps (withLog step) (State.init, []) ops = some (s, log) ∧
    (∀ user pin, NoNul user → NoNul pin → (s.HasRecord user pin ↔ Registered log user pin)) ∧
    (∀ user pin, Short user → Short pin → ¬Registered log user pin →
      step s (.login user pin) = some (s, ⟨-1, []⟩)) ∧
    (validLogins ops < 2 ^ 32 - 1002 →
      ∀ user pin, Short user → Short pin → LoginExact log s user pin)

/-! ### Strings that fit their fields -/

theorem fits_of_short {user pin : Str} (hu : Short user) (hp : Short pin) : Fits user pin := by
  have huser : user.length < fieldSize := Nat.lt_succ_of_le hu.2
  have hpin : pin.length < fieldSize := Nat.lt_succ_of_le hp.2
  exact ⟨hpin, Or.inl huser⟩

/-- The registrations of such a history. -/
theorem short_of_mem_registrations {ops : List Op} (hops : ∀ op ∈ ops, op.Short) {k : Str × Str}
    (hk : k ∈ registrations ops) : Short k.1 ∧ Short k.2 := by
  obtain ⟨op, hop, hkey⟩ := List.mem_filterMap.mp hk
  have hshort := hops op hop
  cases op with
  | login user pin => cases hkey
  | registerUser user pin =>
    obtain rfl := Option.some.inj hkey
    exact hshort

theorem fits_of_mem_take {ops : List Op} (hops : ∀ op ∈ ops, op.Short) {k : Str × Str}
    (hk : k ∈ (registrations ops).take maxUsers) : Fits k.1 k.2 := by
  obtain ⟨hu, hp⟩ := short_of_mem_registrations hops (List.mem_of_mem_take hk)
  exact fits_of_short hu hp

theorem Op.Short.cStrings {op : Op} (h : op.Short) : op.CStrings := by
  cases op with
  | registerUser user pin => exact ⟨h.1.1, h.2.1⟩
  | login user pin => exact ⟨h.1.1, h.2.1⟩

/-- Every call of such a history returns. -/
theorem exists_run_of_short {ops : List Op} (hops : ∀ op ∈ ops, op.Short) :
    ∃ q, runSteps (withLog step) (State.init, []) ops = some q ∧ Inv ops q :=
  exists_run_of_cStrings ops (fun op hop => (hops op hop).cStrings) fun _ hk =>
    (fits_iff.mp (fits_of_mem_take hops hk)).1

/-! ### The records of the table -/

/-- The records hold the registrations kept. -/
theorem Inv.hasRecord_iff {pre : List Op} {q : State × List (Op × Reply)} (h : Inv pre q)
    (hfits : ∀ k ∈ (registrations pre).take maxUsers, Fits k.1 k.2) {user pin : Str}
    (hu : NoNul user) (hp : NoNul pin) : q.1.HasRecord user pin ↔ Registered q.2 user pin := by
  have hentries : (Registry.ofEntries (registrations pre) : Registry _ maxUsers).entries =
      (registrations pre).take maxUsers := Registry.entries_ofEntries _
  -- the record of a registration stands for the registered strings and no others
  have hstands : ∀ k ∈ (registrations pre).take maxUsers,
      (standsFor user pin k = true ↔ k = (user, pin)) := by
    intro k hk
    rw [standsFor, decide_eq_true_iff, (fits_iff.mp (hfits k hk)).2, Prod.ext_iff]
  rw [h.registered_iff, State.HasRecord, h.refines.numUsers_eq]
  constructor
  · rintro ⟨i, hi, hmatch⟩
    rw [recordMatches_spec h.refines hu hp hi] at hmatch
    have hmem := List.getElem_mem hi
    have hkey := Except.ok.inj hmatch
    simp only [hentries] at hmem hkey
    rw [← (hstands _ hmem).mp hkey]
    exact hmem
  · intro hk
    obtain ⟨i, hi, hget⟩ := List.getElem_of_mem (hentries ▸ hk)
    refine ⟨i, hi, ?_⟩
    rw [recordMatches_spec h.refines hu hp hi, hget, (hstands _ hk).mpr rfl]

/-- The counter stands below the error value, if few enough logins were made. -/
theorem next_ne_of_short {ops : List Op} (hops : ∀ op ∈ ops, op.Short)
    {q : State × List (Op × Reply)} (hrun : runSteps (withLog step) (State.init, []) ops = some q)
    (hcount : validLogins ops < 2 ^ 32 - 1002) : q.1.nextTokenId + 1 ≠ -1 := by
  rw [nextTokenId_of_fits (fun op hop => (hops op hop).cStrings)
    (fun k hk => fits_of_mem_take hops hk) hrun]
  exact ofNat_next_ne hcount

/-- **A login is let in with what was registered.**  In every history of calls with strings of at
most 31 bytes, the records of the table are the registrations that returned 0, and a login returns
a token exactly with the name and the PIN of one of these, until the counter has come round. -/
theorem loginsAsRegistered {ops : List Op} (hops : ∀ op ∈ ops, op.Short) :
    LoginsAsRegistered ops := by
  obtain ⟨⟨s, log⟩, hrun, hinv⟩ := exists_run_of_short hops
  have hfits : ∀ k ∈ (registrations ops).take maxUsers, Fits k.1 k.2 :=
    fun k hk => fits_of_mem_take hops hk
  refine ⟨s, log, hrun, fun user pin hu hp => ?_, fun user pin hu hp hnot => ?_,
    fun hcount user pin hu hp => ?_⟩
  · exact hinv.hasRecord_iff hfits hu hp
  · rw [hinv.login hu.1 hp.1, if_neg]
    exact (any_standsFor_iff hfits).not.mpr ((hinv.registered_iff _ _).not.mp hnot)
  · exact hinv.loginExact hfits (next_ne_of_short hops hrun hcount) hu.1 hp.1

/-- A name registered with the PIN 1, and again with the PIN 2. -/
def sameName : List Op :=
  [.registerUser (bytes "al") (bytes "1"), .registerUser (bytes "al") (bytes "2")]

theorem loginsAsRegistered_sameName : LoginsAsRegistered sameName :=
  loginsAsRegistered (by decide)

/-- The second registration takes the name over: the login with its PIN succeeds, and the table
holds two records of the name. -/
theorem not_pinsKept_sameName : ¬ PinsKept sameName ∧ ¬ UniqueNames sameName := by
  have hshort : ∀ op ∈ sameName, op.Short := by decide
  obtain ⟨⟨s, log⟩, hrun, hinv⟩ := exists_run_of_short hshort
  have hfits : ∀ k ∈ (registrations sameName).take maxUsers, Fits k.1 k.2 :=
    fun k hk => fits_of_mem_take hshort hk
  have hone : Registered log (bytes "al") (bytes "1") := (hinv.registered_iff _ _).mpr (by decide)
  have htwo : Registered log (bytes "al") (bytes "2") := (hinv.registered_iff _ _).mpr (by decide)
  have hne : bytes "2" ≠ bytes "1" := by decide
  have hal : NoNul (bytes "al") := by decide
  have hpin : NoNul (bytes "1") ∧ NoNul (bytes "2") := by decide
  constructor
  · intro h
    obtain ⟨s', rc, hlogin, htoken, -⟩ :=
      hinv.loginExact hfits (next_ne_of_short hshort hrun (by decide)) hal hpin.2
    exact htoken.mpr htwo (h s log hrun _ _ hone _ (by decide) hne s' rc hlogin)
  · intro h
    have hrecord := (hinv.hasRecord_iff hfits hal hpin.1).mpr hone
    have hrecord' := (hinv.hasRecord_iff hfits hal hpin.2).mpr htwo
    exact hne (h s log hrun _ _ _ hal hpin.2 hpin.1 hrecord' hrecord)

end BankSel4.Auth
