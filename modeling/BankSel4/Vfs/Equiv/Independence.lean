import BankSel4.Vfs.Equiv.Methods

/-!
# When files opened under different names are independent

All handles reach the one file on the disk.  `Independent` is what that breaks: at every point of a
run, a handle shows the file that the calls before would have left had no write gone through a
handle of another name (`ownCalls`), whether the handle was open at the write or opened after it.
Along a run the file is the one made by all the writes of the run, and without the foreign ones it
is the one made by the rest (`files_run`).

`independent_iff`: the files opened under different names are independent exactly in the runs in
which, at every point, all writes so far went through handles of the same name as each handle then
open.  Only a write of no bytes at offset 0 makes no difference.
-/

namespace BankSel4.Vfs

open Storage

/-! ### What is seen through a handle -/

/-- `sel4_xRead` and `sel4_xFileSize` through `file` give the same on both disks, for every range
inside the disk and whatever the allocator does. -/
def SameView (file : Nat) (disk disk' : Storage.State) : Prop :=
  (∀ malloc iAmt iOfst, InDisk iAmt iOfst →
    sel4XRead malloc disk' file iAmt iOfst = sel4XRead malloc disk file iAmt iOfst) ∧
  sel4XFileSize disk' file = sel4XFileSize disk file

/-- Reads and the size tell two byte files apart. -/
theorem sameView_iff {disk disk' : Storage.State} {f f' : ByteFile UInt8} (h : Refines disk f)
    (h' : Refines disk' f') (file : Nat) : SameView file disk disk' ↔ f' = f := by
  have hdisk : diskSize = 1048576 := rfl
  constructor
  · rintro ⟨hread, hsize⟩
    refine ByteFile.ext (fun i => ?_) ?_
    · by_cases hi : i < diskSize
      · -- read the byte at `i`
        have hofs : (Int64.ofInt i).toInt = i :=
          Int64.toInt_ofInt_of_le (by omega) (by omega)
        have hin : InDisk 1 (Int64.ofInt i) := by
          refine ⟨by omega, by decide, ?_⟩
          rw [hofs, show (1 : Int32).toInt = 1 by decide]
          omega
        have hr := hread (fun _ => true) 1 (Int64.ofInt i) hin
        rw [sel4XRead_spec h hin, sel4XRead_spec h' hin] at hr
        simpa [hofs, ByteFile.read, show sizeOfInt 1 = 1 by decide] using hr
      · rw [f.content_eq_zero i (by have := h.size_le; omega),
          f'.content_eq_zero i (by have := h'.size_le; omega)]
    · have hsz : disk'.currentFileSize.toInt = disk.currentFileSize.toInt := by
        have := congrArg (Option.map Int64.toInt ∘ Prod.snd) hsize
        simpa [sel4XFileSize, diskGetSize] using this
      rw [h.size_eq, h'.size_eq] at hsz
      exact_mod_cast hsz
  · rintro rfl
    refine ⟨fun malloc iAmt iOfst hin => ?_, ?_⟩
    · rw [sel4XRead_spec h hin, sel4XRead_spec h' hin]
    · have hsz : disk'.currentFileSize = disk.currentFileSize := by
        rw [← Int32.toInt_inj, h.size_eq, h'.size_eq]
      rw [sel4XFileSize, sel4XFileSize, diskGetSize, diskGetSize, hsz]

/-! ### The writes of a run -/

/-- Requests as SQLite makes them: ranges inside the disk, and a buffer of `iAmt` bytes. -/
def Op.InDisk : Op → Prop
  | .read _ _ iAmt iOfst => Vfs.InDisk iAmt iOfst
  | .write _ buf iAmt iOfst => Vfs.InDisk iAmt iOfst ∧ iAmt.toInt = buf.length
  | _ => True

instance : DecidablePred Op.InDisk := fun op => by
  cases op <;> unfold Op.InDisk <;> infer_instance

/-- A write: the name its handle was opened with, where it begins and the bytes it puts there. -/
structure Write where
  name : Str
  offset : Nat
  bytes : Str
  deriving DecidableEq, Repr

/-- The write as a block of a byte file. -/
def Write.block (w : Write) : Nat × Str := (w.offset, w.bytes)

/-- The write puts no bytes, and at the start of the file. -/
def Write.Blank (w : Write) : Prop := w.offset = 0 ∧ w.bytes = []

instance (w : Write) : Decidable w.Blank := inferInstanceAs (Decidable (_ ∧ _))

/-- The write that `op` makes in the state `v`, if it makes one. -/
def writeOf (v : State) : Op → Option Write
  | .write h buf _ iOfst => (v.names h).map fun a => ⟨a, iOfst.toInt.toNat, buf⟩
  | _ => none

/-- `op` writes through a handle opened with another name than `b`. -/
def Foreign (b : Str) (v : State) (op : Op) : Prop := ∃ w ∈ writeOf v op, w.name ≠ b

instance (b : Str) (v : State) (op : Op) : Decidable (Foreign b v op) :=
  inferInstanceAs (Decidable (∃ w ∈ writeOf v op, w.name ≠ b))

/-- The writes made by `ops` from `v` on. -/
def runWrites : State → List Op → List Write
  | _, [] => []
  | v, op :: ops => (writeOf v op).toList ++ (step v op).elim [] fun v' => runWrites v' ops

/-- The calls `ops` without the writes through handles of other names than `b`. -/
def ownCalls (b : Str) : State → List Op → List Op
  | _, [] => []
  | v, op :: ops =>
    (if Foreign b v op then [] else [op]) ++ (step v op).elim [] fun v' => ownCalls b v' ops

/-- The file made by a list of writes. -/
def made (ws : List Write) : ByteFile UInt8 := ByteFile.ofWrites (ws.map Write.block)

/-- The writes through handles of the name `b`. -/
def own (b : Str) (ws : List Write) : List Write := ws.filter fun w => w.name = b

theorem runWrites_snoc {v v' : State} {pre : List Op} (op : Op)
    (h : runSteps step v pre = some v') :
    runWrites v (pre ++ [op]) = runWrites v pre ++ (writeOf v' op).toList := by
  induction pre generalizing v with
  | nil =>
    obtain rfl := Option.some.inj h
    cases hs : step v op <;> simp [runWrites, hs]
  | cons o pre ih =>
    obtain ⟨t, ht, hrun⟩ := Option.bind_eq_some_iff.mp h
    simp only [List.cons_append, runWrites, ht, Option.elim_some, ih hrun, List.append_assoc]

theorem ownCalls_snoc {b : Str} {v v' : State} {pre : List Op} {op : Op}
    (h : runSteps step v pre = some v') :
    ownCalls b v (pre ++ [op]) = ownCalls b v pre ++ if Foreign b v' op then [] else [op] := by
  induction pre generalizing v with
  | nil =>
    obtain rfl := Option.some.inj h
    cases hs : step v op <;> simp [ownCalls, hs]
  | cons o pre ih =>
    obtain ⟨t, ht, hrun⟩ := Option.bind_eq_some_iff.mp h
    simp only [List.cons_append, ownCalls, ht, Option.elim_some, ih hrun, List.append_assoc]

theorem made_snoc (ws : List Write) (w : Write) :
    made (ws ++ [w]) = (made ws).write w.offset w.bytes := by
  rw [made, List.map_append]
  exact ByteFile.ofWrites_snoc _ _

theorem own_snoc (b : Str) (ws : List Write) (w : Write) :
    own b (ws ++ [w]) = if w.name = b then own b ws ++ [w] else own b ws := by
  rw [own, List.filter_append]
  split_ifs with h <;> simp [own, h]

/-- A file is empty exactly when every write that made it is blank. -/
theorem size_made_eq_zero_iff {ws : List Write} : (made ws).size = 0 ↔ ∀ w ∈ ws, w.Blank := by
  induction ws using List.reverseRecOn with
  | nil => exact iff_of_true rfl (by simp)
  | append_singleton ws w ih =>
    rw [made_snoc, ByteFile.size_write, Nat.max_eq_zero_iff, ih, Nat.add_eq_zero_iff,
      List.length_eq_zero_iff, List.forall_mem_append, List.forall_mem_singleton, Write.Blank]

/-- Blank writes may be left out. -/
theorem made_own {b : Str} {ws : List Write} (h : ∀ w ∈ ws, w.name = b ∨ w.Blank) :
    made (own b ws) = made ws := by
  induction ws using List.reverseRecOn with
  | nil => rfl
  | append_singleton ws w ih =>
    obtain ⟨hws, hw⟩ := List.forall_mem_append.mp h
    rw [own_snoc, made_snoc]
    split_ifs with hb
    · rw [made_snoc, ih hws]
    · obtain ⟨hofs, hbytes⟩ := (hw w (List.mem_singleton_self w)).resolve_left hb
      rw [ih hws, hofs, hbytes]
      exact ((ByteFile.write_eq_self_iff _ _ _).mpr ⟨Nat.zero_le _, rfl⟩).symm

/-! ### Runs -/

/-- What a write through an open handle does to the state. -/
theorem step_write {v : State} {f : ByteFile UInt8} (hv : Refines v.disk f) {h : Nat} {buf : Str}
    {iAmt : Int32} {iOfst : Int64} (hop : (Op.write h buf iAmt iOfst).InDisk) {a : Str}
    (hh : v.names h = some a) :
    ∃ disk', step v (.write h buf iAmt iOfst) = some ⟨disk', v.names⟩ ∧
      Refines disk' (f.write iOfst.toInt.toNat buf) := by
  obtain ⟨disk', hw, href⟩ := sel4XWrite_spec hv hop.1 hop.2 h
  refine ⟨disk', ?_, href⟩
  rw [step, hh, if_neg (by simp), hw]
  rfl

/-- Only writes change the disk. -/
theorem disk_eq_of_step {v v' : State} {op : Op}
    (hop : ∀ h buf iAmt iOfst, op ≠ .write h buf iAmt iOfst) (hs : step v op = some v') :
    v'.disk = v.disk := by
  cases op with
  | write h buf iAmt iOfst => exact absurd rfl (hop h buf iAmt iOfst)
  | read h alloc iAmt iOfst =>
    rw [step] at hs
    split_ifs at hs
    obtain ⟨_, -, rfl⟩ := Option.map_eq_some_iff.mp hs
    rfl
  | _ =>
    rw [step] at hs
    split_ifs at hs
    obtain rfl := Option.some.inj hs
    rfl

/-- The file after a call is the one before, or the one the call has written. -/
theorem refines_step {v v' : State} {f : ByteFile UInt8} (hv : Refines v.disk f) {op : Op}
    (hop : op.InDisk) (hs : step v op = some v') :
    (∃ w, writeOf v op = some w ∧ v'.names = v.names ∧ Refines v'.disk (f.write w.offset w.bytes)) ∨
      (writeOf v op = none ∧ Refines v'.disk f) := by
  by_cases hw : ∃ h buf iAmt iOfst, op = .write h buf iAmt iOfst
  · obtain ⟨h, buf, iAmt, iOfst, rfl⟩ := hw
    cases hh : v.names h with
    | none => simp [step, hh] at hs
    | some a =>
      obtain ⟨disk', hstep, href⟩ := step_write hv hop hh
      obtain rfl := Option.some.inj (hs.symm.trans hstep)
      exact Or.inl ⟨⟨a, iOfst.toInt.toNat, buf⟩, by rw [writeOf, hh]; rfl, rfl, href⟩
  · push Not at hw
    refine Or.inr ⟨?_, by rwa [disk_eq_of_step hw hs]⟩
    cases op with
    | write h buf iAmt iOfst => exact absurd rfl (hw h buf iAmt iOfst)
    | _ => rfl

/-- A call that can be made can be made on every other disk, and opens and closes the same. -/
theorem exists_step_of_names {v v' u : State} {g : ByteFile UInt8} (hu : Refines u.disk g) {op : Op}
    (hop : op.InDisk) (hnames : u.names = v.names) (hs : step v op = some v') :
    ∃ u', step u op = some u' ∧ u'.names = v'.names := by
  cases op with
  | write h buf iAmt iOfst =>
    have hopen : v.names h ≠ none := fun hh => by simp [step, hh] at hs
    obtain ⟨a, hh⟩ := Option.ne_none_iff_exists'.mp hopen
    obtain ⟨disk', hstep, -⟩ := step_write hu hop (hnames ▸ hh)
    rw [step, if_neg hopen] at hs
    obtain ⟨_, -, rfl⟩ := Option.map_eq_some_iff.mp hs
    exact ⟨_, hstep, hnames⟩
  | read h alloc iAmt iOfst =>
    rw [step] at hs ⊢
    rw [hnames]
    split_ifs at hs ⊢ with hh
    obtain ⟨_, -, rfl⟩ := Option.map_eq_some_iff.mp hs
    rw [sel4XRead_spec hu hop]
    exact ⟨u, rfl, hnames⟩
  | _ =>
    rw [step] at hs ⊢
    rw [hnames]
    split_ifs at hs ⊢
    obtain rfl := Option.some.inj hs
    exact ⟨_, rfl, by simp [hnames]⟩

/-- The disks after the calls `pre`, and after those of them that are `b`'s own, hold the files made
by their writes. -/
structure Files (b : Str) (pre : List Op) (v : State) : Prop where
  refines : Refines v.disk (made (runWrites State.init pre))
  own_run : ∃ u, runSteps step State.init (ownCalls b State.init pre) = some u ∧
    u.names = v.names ∧ Refines u.disk (made (own b (runWrites State.init pre)))

theorem Files.step {b : Str} {pre : List Op} {v v' : State} {op : Op}
    (hrun : runSteps step State.init pre = some v) (h : Files b pre v) (hop : op.InDisk)
    (hs : step v op = some v') : Files b (pre ++ [op]) v' := by
  obtain ⟨hv, u, hown, hnames, hu⟩ := h
  obtain ⟨u', hs', hnames'⟩ := exists_step_of_names hu hop hnames hs
  have hstep' : runSteps Vfs.step State.init (ownCalls b State.init pre ++ [op]) = some u' :=
    runSteps_snoc_eq_some.mpr ⟨u, hown, hs'⟩
  have hsame : writeOf u op = writeOf v op := by
    cases op <;> simp only [writeOf, hnames]
  rcases refines_step hv hop hs with ⟨w, hw, hsameNames, href⟩ | ⟨hw, href⟩
  · have hwrites := runWrites_snoc op hrun
    rw [hw, Option.toList_some] at hwrites
    by_cases hb : w.name = b
    -- a write of `b`'s own is made in both runs
    · have hnot : ¬Foreign b v op := by simp [Foreign, hw, hb]
      refine ⟨by rwa [hwrites, made_snoc], u', ?_, hnames', ?_⟩
      · rwa [ownCalls_snoc hrun, if_neg hnot]
      · rw [hwrites, own_snoc, if_pos hb, made_snoc]
        rcases refines_step hu hop hs' with ⟨w', hw', -, href'⟩ | ⟨hno, -⟩
        · obtain rfl : w = w' := Option.some.inj (hw.symm.trans (hsame.symm.trans hw'))
          exact href'
        · rw [hsame, hw] at hno
          cases hno
    -- the other names' writes are left out
    · have hforeign : Foreign b v op := ⟨w, hw, hb⟩
      refine ⟨by rwa [hwrites, made_snoc], u, ?_, hnames.trans hsameNames.symm, ?_⟩
      · rwa [ownCalls_snoc hrun, if_pos hforeign, List.append_nil]
      · rwa [hwrites, own_snoc, if_neg hb]
  · have hwrites := runWrites_snoc op hrun
    rw [hw, Option.toList_none, List.append_nil] at hwrites
    have hnot : ¬Foreign b v op := by simp [Foreign, hw]
    refine ⟨by rwa [hwrites], u', ?_, hnames', ?_⟩
    · rwa [ownCalls_snoc hrun, if_neg hnot]
    · rw [hwrites]
      rcases refines_step hu hop hs' with ⟨w', hw', -, -⟩ | ⟨-, href'⟩
      · rw [hsame, hw] at hw'
        cases hw'
      · exact href'

/-- **The files of a run**: the one on the disk is made by all writes, and the one that the calls
would leave without the writes of other names than `b` is made by the rest. -/
theorem files_run {ops : List Op} (hops : ∀ op ∈ ops, op.InDisk) {v : State}
    (h : runSteps step State.init ops = some v) (b : Str) : Files b ops v :=
  runSteps_invariant (P := fun _ _ op => op.InDisk) (I := Files b)
    ⟨refines_init, State.init, rfl, rfl, refines_init⟩
    (fun _ _ _ _ hrun hI hop hs => hI.step hrun hop hs)
    (fun _ op _ _ hsplit _ => hops op (by rw [hsplit]; simp)) h

/-! ### Independence -/

/-- Files opened under different names are independent in the run of `ops`: at every point, a handle
shows the file that the calls so far would have left without the writes through handles of other
names. -/
def Independent (ops : List Op) : Prop :=
  ∀ pre post v h b, ops = pre ++ post → runSteps step State.init pre = some v →
    v.names h = some b →
      ∃ u, runSteps step State.init (ownCalls b State.init pre) = some u ∧
        SameView h u.disk v.disk

/-- At every point of the run of `ops`, all writes so far went through handles of the same name as
each handle then open, blank writes apart. -/
def Separate (ops : List Op) : Prop :=
  ∀ pre post v h b, ops = pre ++ post → runSteps step State.init pre = some v →
    v.names h = some b → ∀ w ∈ runWrites State.init pre, w.name = b ∨ w.Blank

/-- What a handle of the name `b` shows is `b`'s own exactly when the own writes make the file. -/
theorem sameView_own_iff {pre : List Op} {v : State} {b : Str} (hfiles : Files b pre v) (h : Nat) :
    (∃ u, runSteps step State.init (ownCalls b State.init pre) = some u ∧
      SameView h u.disk v.disk) ↔
        made (own b (runWrites State.init pre)) = made (runWrites State.init pre) := by
  obtain ⟨hv, u, hown, -, hu⟩ := hfiles
  constructor
  · rintro ⟨u', hown', hview⟩
    obtain rfl := Option.some.inj (hown.symm.trans hown')
    exact ((sameView_iff hu hv h).mp hview).symm
  · exact fun heq => ⟨u, hown, (sameView_iff hu hv h).mpr heq.symm⟩

/-- A name whose own writes make the file has made one of the writes that are not blank, if there is
one. -/
theorem exists_own_of_made_eq {b : Str} {ws : List Write} (h : made (own b ws) = made ws)
    {w : Write} (hw : w ∈ ws) (hnot : ¬w.Blank) : ∃ w' ∈ ws, w'.name = b ∧ ¬w'.Blank := by
  by_contra hno
  push Not at hno
  have hempty : (made (own b ws)).size = 0 := by
    rw [size_made_eq_zero_iff]
    intro w' hw'
    obtain ⟨hmem, hname⟩ := List.mem_filter.mp hw'
    exact hno w' hmem (of_decide_eq_true hname)
  rw [h, size_made_eq_zero_iff] at hempty
  exact hnot (hempty w hw)

/-- In particular no write is seen through a handle of another name that is open at it. -/
theorem Independent.sameView_of_write {ops pre post : List Op} {v v' : State} {handle : Nat}
    {buf : Str} {iAmt : Int32} {iOfst : Int64} (h : Independent ops)
    (hsplit : ops = pre ++ .write handle buf iAmt iOfst :: post)
    (hrun : runSteps step State.init pre = some v)
    (hs : step v (.write handle buf iAmt iOfst) = some v') {handle' : Nat} {a b : Str}
    (ha : v.names handle = some a) (hb : v.names handle' = some b) (hab : a ≠ b) :
    SameView handle' v.disk v'.disk := by
  have hforeign : Foreign b v (.write handle buf iAmt iOfst) :=
    ⟨⟨a, iOfst.toInt.toNat, buf⟩, by rw [writeOf, ha]; rfl, hab⟩
  have hb' : v'.names handle' = some b := by
    rw [step, if_neg (by simp [ha])] at hs
    obtain ⟨_, -, rfl⟩ := Option.map_eq_some_iff.mp hs
    exact hb
  -- the write is left out, so that the view is the same one before and after it
  obtain ⟨u, hown, hread, hsize⟩ := h pre _ v handle' b hsplit hrun hb
  obtain ⟨u', hown', hread', hsize'⟩ := h (pre ++ [.write handle buf iAmt iOfst]) post v' handle' b
    (by rw [hsplit, List.append_assoc]; rfl) (runSteps_snoc_eq_some.mpr ⟨v, hrun, hs⟩) hb'
  rw [ownCalls_snoc hrun, if_pos hforeign, List.append_nil] at hown'
  obtain rfl := Option.some.inj (hown.symm.trans hown')
  refine ⟨fun malloc n ofs hin => ?_, hsize'.trans hsize.symm⟩
  exact (hread' malloc n ofs hin).trans (hread malloc n ofs hin).symm

/-- All writes that are not blank go through handles of one name. -/
def OneName (ws : List Write) : Prop :=
  ∀ w ∈ ws, ∀ w' ∈ ws, ¬w.Blank → ¬w'.Blank → w.name = w'.name

theorem OneName.snoc {ws : List Write} {w : Write} (h : OneName ws)
    (hw : ∀ w' ∈ ws, ¬w'.Blank → w'.name = w.name) : OneName (ws ++ [w]) := by
  intro w₁ h₁ w₂ h₂ hnot₁ hnot₂
  rw [List.mem_append, List.mem_singleton] at h₁ h₂
  rcases h₁ with h₁ | rfl <;> rcases h₂ with h₂ | rfl
  · exact h w₁ h₁ w₂ h₂ hnot₁ hnot₂
  · exact hw w₁ h₁ hnot₁
  · exact (hw w₂ h₂ hnot₂).symm
  · rfl

theorem exists_handle_of_writeOf {v : State} {op : Op} {w : Write} (h : writeOf v op = some w) :
    ∃ handle, v.names handle = some w.name := by
  cases op with
  | write handle buf iAmt iOfst =>
    obtain ⟨a, ha, rfl⟩ := Option.map_eq_some_iff.mp h
    exact ⟨handle, ha⟩
  | _ => cases h

/-- In a run in which files are independent, one name makes all the writes that are not blank. -/
theorem Independent.oneName {ops : List Op} (h : Independent ops) (hops : ∀ op ∈ ops, op.InDisk)
    {pre post : List Op} (hsplit : ops = pre ++ post) {v : State}
    (hrun : runSteps step State.init pre = some v) : OneName (runWrites State.init pre) := by
  refine runSteps_invariant (I := fun pre _ => OneName (runWrites State.init pre))
    (P := fun pre v _ => ∀ handle b, v.names handle = some b →
      made (own b (runWrites State.init pre)) = made (runWrites State.init pre))
    (fun w hw => absurd hw List.not_mem_nil) ?_ ?_ hrun
  · intro pre v op v' hrun hone hown hs
    rw [runWrites_snoc op hrun]
    cases hw : writeOf v op with
    | none => rwa [Option.toList_none, List.append_nil]
    | some w =>
      refine hone.snoc fun w' hw' hnot => ?_
      -- the file is made by the writes of the name that writes now, so one of those came before
      obtain ⟨handle, hname⟩ := exists_handle_of_writeOf hw
      obtain ⟨w'', hw'', hname', hnot'⟩ :=
        exists_own_of_made_eq (hown handle w.name hname) hw' hnot
      rw [hone w' hw' w'' hw'' hnot hnot', hname']
  · rintro pre' op post' v' rfl hrun' handle b hname
    have hsplit' : ops = pre' ++ (op :: post' ++ post) := by rw [hsplit, List.append_assoc]
    have hfiles := files_run (fun o ho => hops o (by rw [hsplit']; simp [ho])) hrun' b
    exact (sameView_own_iff hfiles handle).mp (h pre' _ v' handle b hsplit' hrun' hname)

/-- **Independence of files**: in a run of requests inside the disk, the files opened under
different names are independent exactly when at every point all writes so far went through handles
of the same name as each handle then open. -/
theorem independent_iff {ops : List Op} (hops : ∀ op ∈ ops, op.InDisk) :
    Independent ops ↔ Separate ops := by
  have hfiles : ∀ {pre post v} b, ops = pre ++ post → runSteps step State.init pre = some v →
      Files b pre v := by
    rintro pre post v b rfl hrun
    exact files_run (fun o ho => hops o (by simp [ho])) hrun b
  constructor
  · intro h pre post v handle b hsplit hrun hname w hw
    by_contra hnot
    rw [not_or] at hnot
    obtain ⟨hne, hnot⟩ := hnot
    -- `b` has made a write too, and all are of one name
    have heq := (sameView_own_iff (hfiles b hsplit hrun) handle).mp
      (h pre post v handle b hsplit hrun hname)
    obtain ⟨w', hw', rfl, hnot'⟩ := exists_own_of_made_eq heq hw hnot
    exact hne (h.oneName hops hsplit hrun w hw w' hw' hnot hnot')
  · intro h pre post v handle b hsplit hrun hname
    exact (sameView_own_iff (hfiles b hsplit hrun) handle).mpr
      (made_own (h pre post v handle b hsplit hrun hname))

/-- The main database and its journal, open at once. -/
def journalRun : List Op :=
  [.open 0 (some (bytes "bank_ledger.db")), .open 1 (some (bytes "bank_ledger.db-journal")),
    .write 0 [83] 1 0, .write 1 [217] 1 0]

theorem independent_iff_journalRun : Independent journalRun ↔ Separate journalRun :=
  independent_iff (by decide)

/-- The journal's write is read back through the handle of the database. -/
theorem not_independent_journalRun : (∀ op ∈ journalRun, op.InDisk) ∧ ¬Independent journalRun := by
  refine ⟨by decide, fun h => ?_⟩
  obtain ⟨u, hu, hview⟩ := h journalRun [] _ 0 (bytes "bank_ledger.db") rfl rfl rfl
  obtain rfl := Option.some.inj hu
  have hread := hview.1 (fun _ => true) 1 0 (by decide)
  exact absurd hread (by decide)

end BankSel4.Vfs
