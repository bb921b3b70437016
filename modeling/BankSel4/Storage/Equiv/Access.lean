import BankSel4.Algorithm.Run
import BankSel4.Storage.Disk

/-!
# What Storage accesses

A call makes at most one copy between `physical_disk` and a buffer; `copy` says which one, and
`call_eq_ok_iff` that a call returns exactly when that copy can be made.  The check of `disk_write`
bounds the sum of `offset` and `amount` and nothing else, and `disk_read` does not look at the sign
of either.

`safe_iff` says for which requests a call stays inside the disk and the buffer, in every state that
a run of calls reaches.  The size of the file stays inside the disk in any case (`sizeInDisk_run`).
-/

namespace BankSel4.Storage

/-! ### The copies -/

/-- A copy between the disk and a buffer that it starts at. -/
structure Copy where
  /-- The first address on the disk. -/
  addr : Int
  /-- The number of bytes. -/
  len : Nat
  /-- The size of the buffer. -/
  bufSize : Nat

/-- Every byte that is copied is one of the disk and one of the buffer. -/
def Copy.Inside (w : Copy) : Prop :=
  ∀ k < w.len, 0 ≤ w.addr + k ∧ w.addr + k < diskSize ∧ k < w.bufSize

/-- The pointers of the copy are good, which C asks for even if there is nothing to copy. -/
def Copy.Valid (w : Copy) : Prop := 0 ≤ w.addr ∧ w.addr + w.len ≤ diskSize ∧ w.len ≤ w.bufSize

theorem Copy.inside_iff {w : Copy} : w.Inside ↔ w.len = 0 ∨ w.Valid := by
  constructor
  · intro h
    by_cases hlen : w.len = 0
    · exact Or.inl hlen
    · -- the first and the last byte
      have hfirst := h 0 (by omega)
      have hlast := h (w.len - 1) (by omega)
      exact Or.inr ⟨by omega, by omega, by omega⟩
  · rintro (hlen | ⟨haddr, hdisk, hbuf⟩) k hk
    · omega
    · exact ⟨by omega, by omega, by omega⟩

/-- The copy of `disk_read`, if it comes to one. -/
def readCopy (malloc : Nat → Bool) (s : State) (offset amount : Int32) :
    Except Fault (Option Copy) :=
  if s.currentFileSize ≤ offset then .ok none
  else do
    let n ← bytesToRead s offset amount
    .ok (if malloc (sizeOfInt amount) then some ⟨offset.toInt, sizeOfInt n, sizeOfInt amount⟩
      else none)

/-- The copy of `disk_write`, if it comes to one. -/
def writeCopy (offset amount : Int32) (bufSz : Nat) (buf : Str) : Except Fault (Option Copy) := do
  let stop ← addInt offset amount
  .ok (if (diskSize : Int) < stop.toInt then none else some ⟨offset.toInt, bufSz, buf.length⟩)

/-- The copy of a call, if it makes one; a fault where a sum on the way overflows. -/
def copy (malloc : Nat → Bool) (s : State) : Op → Except Fault (Option Copy)
  | .read offset amount => readCopy malloc s offset amount
  | .write offset amount bufSz buf => writeCopy offset amount bufSz buf
  | _ => .ok none

section Calls

variable {malloc : Nat → Bool} {s : State} {offset amount : Int32}

theorem diskRead_eq_ok_iff : (∃ r, diskRead malloc s offset amount = .ok r) ↔
    ∃ w, readCopy malloc s offset amount = .ok w ∧ ∀ c, w = some c → c.Valid := by
  unfold diskRead readCopy
  by_cases hpast : s.currentFileSize ≤ offset
  · simp [hpast]
  · rw [if_neg hpast, if_neg hpast]
    cases hn : bytesToRead s offset amount with
    | error e => simp [bind, Except.bind]
    | ok n =>
      by_cases hmalloc : malloc (sizeOfInt amount)
      · -- `memcpy` checks the disk, and then the buffer
        simp only [bind, Except.bind, hmalloc, if_true, Except.ok.injEq, exists_eq_left',
          Option.some.injEq, forall_eq', Copy.Valid, Mem.memcpyFrom]
        by_cases hdisk : 0 ≤ offset.toInt ∧ offset.toInt + (sizeOfInt n : Int) ≤ (diskSize : Int)
        · simp only [hdisk.1, hdisk.2, true_and]
          by_cases hbuf : sizeOfInt n ≤ sizeOfInt amount
          · simp [hbuf]
          · simp [hbuf]
        · simp only [if_neg hdisk, reduceCtorEq, exists_false, false_iff]
          rintro ⟨h0, hlen, -⟩
          exact hdisk ⟨h0, hlen⟩
      · simp [bind, Except.bind, hmalloc]

theorem diskWrite_eq_ok_iff {bufSz : Nat} {buf : Str} :
    (∃ r, diskWrite s offset amount bufSz buf = .ok r) ↔
      ∃ w, writeCopy offset amount bufSz buf = .ok w ∧ ∀ c, w = some c → c.Valid := by
  unfold diskWrite writeCopy
  cases hstop : addInt offset amount with
  | error e => simp [bind, Except.bind]
  | ok stop =>
    by_cases hfull : (diskSize : Int) < stop.toInt
    · simp [bind, Except.bind, hfull]
    · simp only [bind, Except.bind, if_neg hfull, Except.ok.injEq, exists_eq_left',
        Option.some.injEq, forall_eq', Copy.Valid]
      by_cases hshort : buf.length < bufSz
      · have hno : ¬ bufSz ≤ buf.length := Nat.not_le.mpr hshort
        simp [hshort, hno]
      · have hlen : (buf.take bufSz).length = bufSz := by
          rw [List.length_take]
          omega
        simp only [if_neg hshort, Mem.perform, Block.Within, hlen, Nat.not_lt.mp hshort, and_true]
        by_cases hdisk : 0 ≤ offset.toInt ∧ offset.toInt + (bufSz : Int) ≤ (diskSize : Int)
        · rw [if_pos hdisk]
          exact iff_of_true ⟨_, rfl⟩ hdisk
        · rw [if_neg hdisk]
          exact iff_of_false (by simp) hdisk

/-- A call returns exactly when no sum overflows and its copy can be made. -/
theorem call_eq_ok_iff {op : Op} : (∃ r, call malloc s op = .ok r) ↔
    ∃ w, copy malloc s op = .ok w ∧ ∀ c, w = some c → c.Valid := by
  cases op with
  | read offset amount =>
    rw [copy, ← diskRead_eq_ok_iff, call]
    cases diskRead malloc s offset amount <;> simp [Except.map]
  | write offset amount bufSz buf =>
    rw [copy, ← diskWrite_eq_ok_iff (s := s), call]
    cases diskWrite s offset amount bufSz buf <;> simp [Except.map]
  | _ => simp [call, copy]

end Calls

/-! ### The size of the file -/

/-- `0 <= current_file_size <= DISK_SIZE`. -/
def State.SizeInDisk (s : State) : Prop :=
  0 ≤ s.currentFileSize.toInt ∧ s.currentFileSize.toInt ≤ diskSize

instance (s : State) : Decidable s.SizeInDisk := inferInstanceAs (Decidable (_ ∧ _))

/-- A call that returns leaves the size inside the disk. -/
theorem State.SizeInDisk.call {malloc : Nat → Bool} {s s' : State} {op : Op} {reply : Reply}
    (h : s.SizeInDisk) (hcall : call malloc s op = .ok (s', reply)) : s'.SizeInDisk := by
  cases op with
  | write offset amount bufSz buf =>
    rw [Storage.call] at hcall
    cases hw : diskWrite s offset amount bufSz buf with
    | error e =>
      rw [hw] at hcall
      cases hcall
    | ok r =>
      rw [hw] at hcall
      obtain ⟨rfl, -⟩ := Prod.mk.inj (Except.ok.inj hcall)
      obtain ⟨stop, -, ⟨-, rfl⟩ | ⟨hstop, -, disk, -, rfl⟩⟩ := diskWrite_cases hw
      · exact h
      · -- the size only grows, up to the end of the write
        obtain ⟨hlo, hhi⟩ := h
        show 0 ≤ (if _ then stop else s.currentFileSize).toInt ∧
          (if _ then stop else s.currentFileSize).toInt ≤ (diskSize : Int)
        split_ifs with hlt
        · rw [Int32.lt_iff_toInt_lt] at hlt
          exact ⟨by omega, hstop⟩
        · exact ⟨hlo, hhi⟩
  | read offset amount =>
    rw [Storage.call] at hcall
    cases hr : diskRead malloc s offset amount with
    | error e =>
      rw [hr] at hcall
      cases hcall
    | ok r =>
      rw [hr] at hcall
      obtain ⟨rfl, -⟩ := Prod.mk.inj (Except.ok.inj hcall)
      exact h
  | _ =>
    obtain ⟨rfl, -⟩ := Prod.mk.inj (Except.ok.inj hcall)
    exact h

/-- The state after a call, with the allocations of that call. -/
def next (s : State) (x : (Nat → Bool) × Op) : Option State := (step x.1 s x.2).map Prod.fst

/-- **The size stays inside the disk** in every run. -/
theorem sizeInDisk_run {calls : List ((Nat → Bool) × Op)} {s : State}
    (hrun : runSteps next State.init calls = some s) : s.SizeInDisk := by
  refine runSteps_state_invariant (I := State.SizeInDisk) (by decide) (fun t x t' ht hs => ?_) hrun
  obtain ⟨⟨t'', reply⟩, hstep, rfl⟩ := Option.map_eq_some_iff.mp hs
  exact ht.call (toOption_eq_some.mp hstep)

/-! ### Requests that are safe -/

/-- The sum is an `int`. -/
def InInt (x : Int) : Prop := -2 ^ 31 ≤ x ∧ x < 2 ^ 31

instance (x : Int) : Decidable (InInt x) := inferInstanceAs (Decidable (_ ∧ _))

/-- A request as it arrives over the interface: the buffer has the length that comes with it. -/
def Op.Arrives : Op → Prop
  | .write _ _ bufSz buf => bufSz = buf.length
  | _ => True

instance : DecidablePred Op.Arrives := fun op => by
  cases op <;> unfold Op.Arrives <;> infer_instance

/-- The call stays inside the disk and the buffer, no sum overflows, and the size of the file stays
inside the disk. -/
structure Safe (malloc : Nat → Bool) (s : State) (op : Op) : Prop where
  inside : ∃ w, copy malloc s op = .ok w ∧ ∀ c, w = some c → c.Inside
  size : ∀ s' reply, call malloc s op = .ok (s', reply) → s'.SizeInDisk

/-- The request asks for nothing outside the disk. -/
def Op.Bounded (malloc : Nat → Bool) (s : State) : Op → Prop
  | .read offset amount => s.currentFileSize ≤ offset ∨
      InInt (offset.toInt + amount.toInt) ∧ (¬ malloc (sizeOfInt amount) ∨ amount = 0 ∨
        0 ≤ offset.toInt ∧ 0 ≤ amount.toInt)
  | .write offset amount bufSz _ => InInt (offset.toInt + amount.toInt) ∧
      ((diskSize : Int) < offset.toInt + amount.toInt ∨ bufSz = 0 ∨
        0 ≤ offset.toInt ∧ offset.toInt + bufSz ≤ diskSize)
  | _ => True

section Bounded

variable {malloc : Nat → Bool} {s : State} {offset amount : Int32}

theorem inInt_of_addInt {a b c : Int32} (h : addInt a b = .ok c) : InInt (a.toInt + b.toInt) := by
  have hval := addInt_eq_ok_iff.mp h
  have hlo := c.le_toInt
  have hhi := c.toInt_lt
  exact ⟨by omega, by omega⟩

/-- The clamped length is the smaller one of the request and what the file has left. -/
theorem exists_bytesToRead (h : s.SizeInDisk) (hsum : InInt (offset.toInt + amount.toInt)) :
    ∃ n, bytesToRead s offset amount = .ok n ∧
      n.toInt = min amount.toInt (s.currentFileSize.toInt - offset.toInt) := by
  have hdisk : diskSize = 1048576 := rfl
  obtain ⟨hlo, hhi⟩ := h
  have hmax := amount.toInt_lt
  obtain ⟨stop, hstop, hval⟩ := exists_addInt_eq_ok hsum.1 hsum.2
  simp only [bytesToRead, hstop, bind, Except.bind]
  by_cases hclamp : s.currentFileSize < stop
  · rw [if_pos hclamp]
    rw [Int32.lt_iff_toInt_lt] at hclamp
    have hoffset := offset.toInt_lt
    obtain ⟨n, hn, hnval⟩ := exists_subInt_eq_ok (a := s.currentFileSize) (b := offset)
      (by omega) (by omega)
    exact ⟨n, hn, by omega⟩
  · rw [if_neg hclamp]
    rw [Int32.lt_iff_toInt_lt] at hclamp
    exact ⟨amount, rfl, by omega⟩

/-- The copy of a read below the end of the file is inside when neither number is negative, or there
is nothing to read. -/
theorem inside_read_iff {n : Int32} (h : s.SizeInDisk)
    (hoffset : offset.toInt < s.currentFileSize.toInt)
    (hn : n.toInt = min amount.toInt (s.currentFileSize.toInt - offset.toInt)) :
    (Copy.mk offset.toInt (sizeOfInt n) (sizeOfInt amount)).Inside ↔
      amount = 0 ∨ 0 ≤ offset.toInt ∧ 0 ≤ amount.toInt := by
  have hdisk : diskSize = 1048576 := rfl
  obtain ⟨-, hhi⟩ := h
  have hlo := amount.le_toInt
  have hmax := amount.toInt_lt
  have hzero : amount = 0 ↔ amount.toInt = 0 := by
    rw [← Int32.toInt_inj]
    rfl
  rw [Copy.inside_iff, Copy.Valid, hzero]
  -- a negative length is a `size_t` of almost 2^64
  unfold sizeOfInt
  dsimp only
  omega

theorem inside_write_iff {bufSz : Nat} {buf : Str} (hbuf : bufSz = buf.length) :
    (Copy.mk offset.toInt bufSz buf.length).Inside ↔
      bufSz = 0 ∨ 0 ≤ offset.toInt ∧ offset.toInt + bufSz ≤ diskSize := by
  rw [Copy.inside_iff, Copy.Valid]
  dsimp only
  omega

theorem readCopy_inside_iff (h : s.SizeInDisk) :
    (∃ w, readCopy malloc s offset amount = .ok w ∧ ∀ c, w = some c → c.Inside) ↔
      (Op.read offset amount).Bounded malloc s := by
  unfold readCopy Op.Bounded
  dsimp only
  by_cases hpast : s.currentFileSize ≤ offset
  · simp [hpast]
  · rw [if_neg hpast, or_iff_right hpast]
    rw [Int32.le_iff_toInt_le, Int.not_le] at hpast
    by_cases hsum : InInt (offset.toInt + amount.toInt)
    · obtain ⟨n, hn, hval⟩ := exists_bytesToRead h hsum
      rw [hn]
      by_cases hmalloc : malloc (sizeOfInt amount)
      · simp only [bind, Except.bind, hmalloc, if_true, Except.ok.injEq, exists_eq_left',
          Option.some.injEq, forall_eq', hsum, true_and, not_true, false_or]
        exact inside_read_iff h hpast hval
      · simp [bind, Except.bind, hmalloc, hsum]
    · -- the sum is computed for every read below the end of the file
      refine iff_of_false ?_ fun hb => hsum hb.1
      rintro ⟨w, hw, -⟩
      obtain ⟨n, hn, -⟩ := except_bind_eq_ok.mp hw
      obtain ⟨stop, hstop, -⟩ := except_bind_eq_ok.mp hn
      exact hsum (inInt_of_addInt hstop)

theorem writeCopy_inside_iff {bufSz : Nat} {buf : Str} (hbuf : bufSz = buf.length) :
    (∃ w, writeCopy offset amount bufSz buf = .ok w ∧ ∀ c, w = some c → c.Inside) ↔
      (Op.write offset amount bufSz buf).Bounded malloc s := by
  unfold writeCopy Op.Bounded
  constructor
  · rintro ⟨w, hw, hinside⟩
    obtain ⟨stop, hstop, hw⟩ := except_bind_eq_ok.mp hw
    have hval := addInt_eq_ok_iff.mp hstop
    refine ⟨inInt_of_addInt hstop, ?_⟩
    rw [← hval]
    by_cases hfull : (diskSize : Int) < stop.toInt
    · exact Or.inl hfull
    · rw [if_neg hfull] at hw
      exact Or.inr ((inside_write_iff hbuf).mp (hinside _ (Except.ok.inj hw).symm))
  · rintro ⟨hsum, hcase⟩
    obtain ⟨stop, hstop, hval⟩ := exists_addInt_eq_ok hsum.1 hsum.2
    rw [← hval] at hcase
    refine ⟨_, except_bind_eq_ok.mpr ⟨stop, hstop, rfl⟩, fun c hc => ?_⟩
    by_cases hfull : (diskSize : Int) < stop.toInt
    · rw [if_pos hfull] at hc
      cases hc
    · rw [if_neg hfull] at hc
      obtain rfl := Option.some.inj hc
      exact (inside_write_iff hbuf).mpr (hcase.resolve_left hfull)

end Bounded

/-- **Storage stays inside its disk** exactly for the requests that ask for nothing outside it,
after every run of calls. -/
theorem safe_iff {calls : List ((Nat → Bool) × Op)} {s : State}
    (hrun : runSteps next State.init calls = some s) {malloc : Nat → Bool} {op : Op}
    (hop : op.Arrives) : Safe malloc s op ↔ op.Bounded malloc s := by
  have hsize := sizeInDisk_run hrun
  have hsafe : Safe malloc s op ↔
      ∃ w, copy malloc s op = .ok w ∧ ∀ c, w = some c → c.Inside :=
    ⟨fun h => h.inside, fun h => ⟨h, fun s' reply hcall => hsize.call hcall⟩⟩
  rw [hsafe]
  cases op with
  | read offset amount => exact readCopy_inside_iff hsize
  | write offset amount bufSz buf => exact writeCopy_inside_iff hop
  | _ => exact iff_of_true ⟨none, rfl, nofun⟩ trivial

/-- A gapped write, and a read across the end of the file. -/
theorem safe_iff_gap : ∃ s,
    runSteps next State.init [(fun _ => true, .write 4 2 2 [7, 8])] = some s ∧
      (Safe (fun _ => true) s (.read 2 100) ↔ (Op.read 2 100).Bounded (fun _ => true) s) := by
  have hrun : runSteps next State.init [(fun _ => true, .write 4 2 2 [7, 8])] = some _ := rfl
  exact ⟨_, hrun, safe_iff hrun trivial⟩

/-- A write at a negative offset passes the check and goes to the byte before the disk. -/
theorem not_safe_negativeOffset : (Op.write (-1) 1 1 [7]).Arrives ∧
    runSteps next State.init [] = some State.init ∧
    ¬ Safe (fun _ => true) State.init (.write (-1) 1 1 [7]) := by
  refine ⟨rfl, rfl, fun h => ?_⟩
  obtain ⟨w, hw, hinside⟩ := h.inside
  have hcopy : copy (fun _ => true) State.init (.write (-1) 1 1 [7]) = .ok (some ⟨-1, 1, 1⟩) := rfl
  rw [hcopy] at hw
  have hfirst := hinside _ (Except.ok.inj hw).symm 0 Nat.one_pos
  exact absurd hfirst.1 (by decide)

end BankSel4.Storage
