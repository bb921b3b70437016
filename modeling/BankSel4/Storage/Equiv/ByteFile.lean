import BankSel4.Storage.Equiv.Access

/-!
# Storage is a byte file

`Refines s f`: the bytes below the size of the byte file `f` are the ones on the disk, everything
else on the disk is zero, and the file fits the disk.  `diskWrite_of_le`, `diskWrite_of_lt` and
`diskRead_spec` say what the two calls do to a disk that refines a file; the clamped read and the
read past the end agree with the zero tail of the file.

`storage_byteFile` is the resulting statement over runs, in terms of the log of calls and replies
alone: every read returns the bytes last written by a successful write, and the size is the furthest
end of one.
-/

namespace BankSel4.Storage

open ByteFile

/-- The disk holds the byte file `f`. -/
structure Refines (s : State) (f : ByteFile UInt8) : Prop where
  byte_eq : s.physicalDisk.byte = f.content
  size_eq : s.currentFileSize.toInt = f.size
  size_le : f.size ≤ diskSize

theorem refines_init : Refines State.init ByteFile.empty where
  byte_eq := by
    funext i
    simp [State.init, Mem.zero, Mem.byte, ByteFile.empty]
  size_eq := rfl
  size_le := Nat.zero_le _

/-- A disk refines one file only. -/
theorem Refines.unique {s : State} {f g : ByteFile UInt8} (hf : Refines s f) (hg : Refines s g) :
    f = g := by
  refine ByteFile.ext (fun i => by rw [← hf.byte_eq, hg.byte_eq]) ?_
  have := hf.size_eq.symm.trans hg.size_eq
  exact_mod_cast this

/-! ### The calls -/

/-- A write of a range within any disk. -/
theorem diskWrite_of_within (s : State) {offset amount : Int32} {buf : Str} (ho : 0 ≤ offset.toInt)
    (ha : amount.toInt = buf.length) (hfit : offset.toInt + amount.toInt ≤ diskSize) :
    ∃ stop : Int32, stop.toInt = offset.toInt + amount.toInt ∧
      diskWrite s offset amount buf.length buf =
        .ok (⟨s.physicalDisk.store offset.toInt.toNat buf,
          if s.currentFileSize < stop then stop else s.currentFileSize⟩, 0) := by
  have hdisk : diskSize = 1048576 := rfl
  obtain ⟨stop, hstop, hval⟩ :=
    exists_addInt_eq_ok (a := offset) (b := amount) (by omega) (by omega)
  have hw : (⟨offset.toInt, buf⟩ : Block).Within 0 diskSize := by
    refine ⟨ho, ?_⟩
    show offset.toInt + (buf.length : Int) ≤ _
    omega
  refine ⟨stop, hval, ?_⟩
  simp only [diskWrite, hstop, bind, Except.bind, lt_irrefl, if_false, List.take_length,
    Mem.perform_of_within _ hw, if_neg (show ¬(diskSize : Int) < stop.toInt by omega)]

/-- **`disk_write`** of a range within the disk. -/
theorem diskWrite_of_le {s : State} {f : ByteFile UInt8} (h : Refines s f) {offset amount : Int32}
    {buf : Str} (ho : 0 ≤ offset.toInt) (ha : amount.toInt = buf.length)
    (hfit : offset.toInt + amount.toInt ≤ diskSize) :
    ∃ s', diskWrite s offset amount buf.length buf = .ok (s', 0) ∧
      Refines s' (f.write offset.toInt.toNat buf) := by
  obtain ⟨stop, hval, hw⟩ := diskWrite_of_within s ho ha hfit
  refine ⟨_, hw, ?_, ?_, ?_⟩
  · show (s.physicalDisk.store offset.toInt.toNat buf).byte = _
    rw [Mem.byte_store _ (by omega), h.byte_eq, content_write]
  · have hs := h.size_eq
    show (if _ then stop else s.currentFileSize).toInt = _
    rw [size_write]
    -- the size grows to the end of the write, or stays
    split_ifs with hsz <;> rw [Int32.lt_iff_toInt_lt] at hsz <;> omega
  · have := h.size_le
    rw [size_write]
    omega

/-- **`disk_write`** of a range past the end of the disk. -/
theorem diskWrite_of_lt {s : State} {offset amount : Int32} {bufSz : Nat} {buf : Str}
    (hfull : (diskSize : Int) < offset.toInt + amount.toInt)
    (hmax : offset.toInt + amount.toInt < 2 ^ 31) :
    diskWrite s offset amount bufSz buf = .ok (s, -1) := by
  obtain ⟨stop, hstop, hval⟩ := exists_addInt_eq_ok (a := offset) (b := amount) (by omega) hmax
  have hlt : (diskSize : Int) < stop.toInt := by omega
  simp only [diskWrite, hstop, bind, Except.bind, if_pos hlt]

/-- The file that the disk shows: the bytes below its size. -/
def State.file (s : State) : ByteFile UInt8 where
  content i := if i < s.currentFileSize.toInt.toNat then s.physicalDisk.byte i else 0
  size := s.currentFileSize.toInt.toNat
  content_eq_zero _ hi := if_neg (Nat.not_lt.mpr hi)

theorem Refines.file_eq {s : State} {f : ByteFile UInt8} (h : Refines s f) : s.file = f := by
  have hs := h.size_eq
  have hsize : s.file.size = f.size := by
    show s.currentFileSize.toInt.toNat = f.size
    omega
  refine ByteFile.ext (fun i => ?_) hsize
  show (if i < s.file.size then s.physicalDisk.byte i else 0) = f.content i
  rw [h.byte_eq, hsize]
  split_ifs with hi
  · rfl
  · exact (f.content_eq_zero i (Nat.not_lt.mp hi)).symm

theorem Refines.sizeInDisk {s : State} {f : ByteFile UInt8} (h : Refines s f) : s.SizeInDisk := by
  have hs := h.size_eq
  have hle := h.size_le
  exact ⟨by omega, by omega⟩

/-- **`disk_read`** of any disk: the bytes of its file in the range, zeros past the end. -/
theorem diskRead_of_malloc {s : State} (h : s.SizeInDisk) {malloc : Nat → Bool}
    {offset amount : Int32} (ho : 0 ≤ offset.toInt) (ha : 0 ≤ amount.toInt)
    (hsum : s.currentFileSize ≤ offset ∨ InInt (offset.toInt + amount.toInt))
    (halloc : malloc (sizeOfInt amount)) :
    diskRead malloc s offset amount =
      .ok ⟨0, sizeOfInt amount, some (s.file.read offset.toInt.toNat (sizeOfInt amount))⟩ := by
  unfold diskRead
  by_cases hpast : s.currentFileSize ≤ offset
  · -- past the end: the zero buffer is the zero tail of the file
    rw [if_pos hpast, if_pos halloc]
    rw [Int32.le_iff_toInt_le] at hpast
    have hsize : s.file.size ≤ offset.toInt.toNat := by
      show s.currentFileSize.toInt.toNat ≤ _
      omega
    rw [ByteFile.read_of_size_le _ hsize]
  · -- the bytes that are there, and zeros up to `amount`
    rw [if_neg hpast]
    obtain ⟨n, hn, hval⟩ := exists_bytesToRead h (hsum.resolve_left hpast)
    rw [Int32.le_iff_toInt_le] at hpast
    have hhi := h.2
    have hamount := sizeOfInt_of_nonneg ha
    have hlen := sizeOfInt_of_nonneg (a := n) (by omega)
    have hle : sizeOfInt n ≤ sizeOfInt amount := by omega
    have hin : 0 ≤ offset.toInt ∧ offset.toInt + (sizeOfInt n : Int) ≤ (diskSize : Int) := by omega
    simp only [hn, bind, Except.bind, halloc, if_true, Mem.memcpyFrom, if_pos hin, List.length_map,
      List.length_range, if_pos hle]
    congr
    refine List.ext_getElem (by simp; omega) fun k _ hk => ?_
    rw [ByteFile.length_read] at hk
    simp only [ByteFile.read, State.file, List.getElem_map, List.getElem_range,
      List.getElem_append, List.length_map, List.length_range, List.getElem_replicate]
    split_ifs with hlt hend hend
    · rfl
    · omega
    · omega
    · rfl

/-- **`disk_read`**: the bytes of the file in the range, zeros past its end. -/
theorem diskRead_spec {s : State} {f : ByteFile UInt8} (h : Refines s f) {malloc : Nat → Bool}
    {offset amount : Int32} (ho : 0 ≤ offset.toInt) (ha : 0 ≤ amount.toInt)
    (hmax : offset.toInt + amount.toInt < 2 ^ 31) (halloc : malloc (sizeOfInt amount)) :
    diskRead malloc s offset amount =
      .ok ⟨0, sizeOfInt amount, some (f.read offset.toInt.toNat (sizeOfInt amount))⟩ := by
  have hsum : InInt (offset.toInt + amount.toInt) := ⟨by omega, hmax⟩
  rw [diskRead_of_malloc h.sizeInDisk ho ha (Or.inr hsum) halloc, h.file_eq]

/-- A read the allocator does not serve returns no buffer. -/
theorem diskRead_of_not_malloc {s : State} (h : s.SizeInDisk) {malloc : Nat → Bool}
    {offset amount : Int32}
    (hsum : s.currentFileSize ≤ offset ∨ InInt (offset.toInt + amount.toInt))
    (halloc : ¬malloc (sizeOfInt amount)) :
    ∃ rc bufSz, diskRead malloc s offset amount = .ok ⟨rc, bufSz, none⟩ := by
  unfold diskRead
  by_cases hpast : s.currentFileSize ≤ offset
  · exact ⟨0, sizeOfInt amount, by rw [if_pos hpast, if_neg halloc]⟩
  · rw [if_neg hpast]
    obtain ⟨n, hn, -⟩ := exists_bytesToRead h (hsum.resolve_left hpast)
    exact ⟨-1, 0, by simp only [hn, bind, Except.bind, if_neg halloc]⟩

/-! ### Runs -/

/-- A request of the kind the Ledger makes: a range of non-negative `int`s whose end is an `int`, a
buffer of `amount` bytes, and an allocation that is served. -/
def Op.Admissible (malloc : Nat → Bool) : Op → Prop
  | .read offset amount => 0 ≤ offset.toInt ∧ 0 ≤ amount.toInt ∧
      offset.toInt + amount.toInt < 2 ^ 31 ∧ malloc (sizeOfInt amount)
  | .write offset amount bufSz buf => 0 ≤ offset.toInt ∧ amount.toInt = buf.length ∧
      bufSz = buf.length ∧ offset.toInt + amount.toInt < 2 ^ 31
  | _ => True

instance decidableAdmissible (malloc : Nat → Bool) : DecidablePred (Op.Admissible malloc)
  | .read .. | .write .. => inferInstanceAs (Decidable (_ ∧ _))
  | .open _ | .close | .getSize | .sync => isTrue trivial

/-- The successful writes of a log, as offsets and blocks. -/
def writesOf (log : List (Op × Reply)) : List (ℕ × Str) :=
  log.filterMap fun
    | (.write offset _ _ buf, .rc rc) => if rc = 0 then some (offset.toInt.toNat, buf) else none
    | _ => none

theorem writesOf_snoc (log : List (Op × Reply)) (e : Op × Reply) :
    writesOf (log ++ [e]) = writesOf log ++ writesOf [e] := List.filterMap_append

/-- A call that is no successful write leaves the file of the log. -/
theorem Refines.snoc {s : State} {log : List (Op × Reply)} {e : Op × Reply}
    (h : Refines s (ofWrites (writesOf log))) (he : writesOf [e] = []) :
    Refines s (ofWrites (writesOf (log ++ [e]))) := by
  rwa [writesOf_snoc, he, List.append_nil]

/-- What a call after the log `log`, from `s` to `s'`, must do to be the call of a byte file: a
write is carried out exactly when it ends within the disk and changes nothing otherwise; a read
returns `amount` bytes, each the one the last successful write covering its position put there, or
zero; the size is the furthest end of a successful write. -/
def Meets (log : List (Op × Reply)) (s : State) (op : Op) (s' : State) (reply : Reply) : Prop :=
  match op with
  | .write offset amount _ _ =>
    (offset.toInt + amount.toInt ≤ diskSize ∧ reply = .rc 0) ∨
      ((diskSize : Int) < offset.toInt + amount.toInt ∧ reply = .rc (-1) ∧ s' = s)
  | .read offset amount => ∃ buf : Str, reply = .read ⟨0, sizeOfInt amount, some buf⟩ ∧
      (buf.length : Int) = amount.toInt ∧
      ∀ k < buf.length, buf.getD k 0 = lastCovering (writesOf log) (offset.toInt.toNat + k)
  | .getSize => ∃ size : Int32, reply = .size 0 size ∧ size.toInt = extent (writesOf log)
  | _ => True

/-- One call: the disk goes on refining the file left by the successful writes. -/
theorem step_spec {malloc : Nat → Bool} {s : State} {log : List (Op × Reply)} {op : Op}
    (h : Refines s (ofWrites (writesOf log))) (hop : op.Admissible malloc) :
    ∃ s' reply, step malloc s op = some (s', reply) ∧
      Refines s' (ofWrites (writesOf (log ++ [(op, reply)]))) ∧ Meets log s op s' reply := by
  cases op with
  | write offset amount bufSz buf =>
    obtain ⟨ho, ha, rfl, hmax⟩ := hop
    by_cases hfit : offset.toInt + amount.toInt ≤ diskSize
    · obtain ⟨s', hw, hs'⟩ := diskWrite_of_le h ho ha hfit
      refine ⟨s', .rc 0, by rw [step, call, hw]; rfl, ?_, Or.inl ⟨hfit, rfl⟩⟩
      rw [writesOf_snoc, show writesOf [(Op.write offset amount buf.length buf, Reply.rc 0)]
        = [(offset.toInt.toNat, buf)] from rfl, ofWrites_snoc]
      exact hs'
    · rw [not_le] at hfit
      exact ⟨s, .rc (-1), by rw [step, call, diskWrite_of_lt hfit hmax]; rfl, h.snoc rfl,
        Or.inr ⟨hfit, rfl, rfl⟩⟩
  | read offset amount =>
    obtain ⟨ho, ha, hmax, halloc⟩ := hop
    refine ⟨s, .read ⟨0, sizeOfInt amount,
        some ((ofWrites (writesOf log)).read offset.toInt.toNat (sizeOfInt amount))⟩,
      by rw [step, call, diskRead_spec h ho ha hmax halloc]; rfl, h.snoc rfl, _, rfl, ?_,
      fun k hk => ?_⟩
    · rw [ByteFile.length_read, sizeOfInt_of_nonneg ha]
    · rw [ByteFile.length_read] at hk
      rw [ByteFile.getD_read _ hk, content_ofWrites]
  | getSize =>
    exact ⟨s, .size 0 s.currentFileSize, rfl, h.snoc rfl, _, rfl, by rw [h.size_eq, size_ofWrites]⟩
  | «open» filename => exact ⟨s, .rc 0, rfl, h.snoc rfl, trivial⟩
  | close => exact ⟨s, .rc 0, rfl, h.snoc rfl, trivial⟩
  | sync => exact ⟨s, .rc 0, rfl, h.snoc rfl, trivial⟩

/-- Every run of admissible calls is served and leaves the file of its successful writes. -/
theorem run_refines {malloc : Nat → Bool} {ops : List Op}
    (hops : ∀ op ∈ ops, op.Admissible malloc) :
    ∃ p, runSteps (withLog (step malloc)) (State.init, []) ops = some p ∧
      Refines p.1 (ofWrites (writesOf p.2)) := by
  refine exists_runSteps (P := fun _ _ op => op.Admissible malloc)
    (I := fun _ (p : State × List (Op × Reply)) => Refines p.1 (ofWrites (writesOf p.2)))
    refines_init (fun pre p op _ hp hop => ?_)
    (fun pre op post _ hsplit _ => hops op (by rw [hsplit]; simp))
  obtain ⟨s', reply, hs, href, -⟩ := step_spec hp hop
  exact ⟨(s', p.2 ++ [(op, reply)]), withLog_eq_some.mpr ⟨reply, hs, rfl⟩, href⟩

/-- **Storage is a faithful byte file**: after every sequence of admissible calls, every further one
is served as the log of successful writes says. -/
theorem storage_byteFile {malloc : Nat → Bool} {ops : List Op}
    (hops : ∀ op ∈ ops, op.Admissible malloc) :
    ∃ s log, runSteps (withLog (step malloc)) (State.init, []) ops = some (s, log) ∧
      ∀ op : Op, op.Admissible malloc →
        ∃ s' reply, step malloc s op = some (s', reply) ∧ Meets log s op s' reply := by
  obtain ⟨⟨s, log⟩, hrun, href⟩ := run_refines hops
  refine ⟨s, log, hrun, fun op hop => ?_⟩
  obtain ⟨s', reply, hs, -, hmeets⟩ := step_spec href hop
  exact ⟨s', reply, hs, hmeets⟩

/-- The byte-file law after a gapped write. -/
theorem storage_byteFile_gap : ∃ s log, runSteps (withLog (step fun _ => true)) (State.init, [])
      [.write 4 2 2 [7, 8], .getSize] = some (s, log) ∧
    ∀ op : Op, op.Admissible (fun _ => true) →
      ∃ s' reply, step (fun _ => true) s op = some (s', reply) ∧ Meets log s op s' reply :=
  storage_byteFile (by decide)

end BankSel4.Storage
