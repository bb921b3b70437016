import BankSel4.Vfs.Equiv.Methods

/-!
# The length of a file

SQLite takes a file to get longer by writes and shorter by truncations, and a read that passes its
end to be reported (`KeepsLength`).  `sel4_xTruncate` is a stub, and `disk_read` serves a read past
the end of the file with zeros.  So the length is the furthest end of a write, and every read
succeeds: `repliesAsWritten` says so for every run.
-/

namespace BankSel4.Vfs

open Storage ByteFile

/-- `SQLITE_IOERR_SHORT_READ`. -/
def sqliteIoerrShortRead : Int32 := sqliteIoerr ||| ((2 : Int32) <<< 8)

/-- Ranges inside the disk, and buffers of `iAmt` bytes. -/
def FileOp.InRange : FileOp → Prop
  | .write buf iAmt iOfst => InDisk iAmt iOfst ∧ iAmt.toInt = buf.length
  | .read _ iAmt iOfst => InDisk iAmt iOfst
  | _ => True

instance : DecidablePred FileOp.InRange := fun op => by
  cases op <;> unfold FileOp.InRange <;> infer_instance

/-- The disk after a call. -/
def fileNext (file : Nat) (disk : Storage.State) (op : FileOp) : Option Storage.State :=
  (fileStep file disk op).map Prod.fst

/-- Every call of the run on the file returns, with a reply that `spec` allows after the calls
before it. -/
def Replies (file : Nat) (spec : List FileOp → FileOp → FileReply → Prop) (ops : List FileOp) :
    Prop :=
  ∀ pre op post, ops = pre ++ op :: post →
    ∃ disk disk' reply, runSteps (fileNext file) Storage.State.init pre = some disk ∧
      fileStep file disk op = some (disk', reply) ∧ spec pre op reply

/-! ### SQLite's file -/

/-- What a call makes of the file. -/
def FileOp.apply (f : ByteFile UInt8) : FileOp → ByteFile UInt8
  | .write buf _ iOfst => if buf = [] then f else f.write iOfst.toInt.toNat buf
  | .truncate size => f.truncate size.toInt.toNat
  | _ => f

/-- What a call on the file returns: its size, or the bytes of the range with zeros past the end,
and whether the range has passed it. -/
def Contract (f : ByteFile UInt8) (op : FileOp) (reply : FileReply) : Prop :=
  match op with
  | .read _ iAmt iOfst => reply =
      .read (if iOfst.toInt + iAmt.toInt ≤ f.size then sqliteOk else sqliteIoerrShortRead)
        (some (f.read iOfst.toInt.toNat (sizeOfInt iAmt)))
  | .fileSize => ∃ size : Int64, reply = .size sqliteOk (some size) ∧ size.toInt = f.size
  | _ => True

/-- The VFS keeps SQLite's notion of the length of the file. -/
def KeepsLength (file : Nat) (ops : List FileOp) : Prop :=
  Replies file (fun pre => Contract (pre.foldl FileOp.apply ByteFile.empty)) ops

/-! ### The file of the VFS -/

/-- The writes of a run, as offsets and blocks. -/
def writes (ops : List FileOp) : List (ℕ × Str) :=
  ops.filterMap fun
    | .write buf _ iOfst => some (iOfst.toInt.toNat, buf)
    | _ => none

/-- A call is answered from the file that the writes before it have left: its size is their furthest
end, and a read succeeds wherever it ends, if the allocation does. -/
def AsWritten (pre : List FileOp) (op : FileOp) (reply : FileReply) : Prop :=
  match op with
  | .read alloc iAmt iOfst => reply =
      if alloc then
        .read sqliteOk (some ((ofWrites (writes pre)).read iOfst.toInt.toNat (sizeOfInt iAmt)))
      else .read sqliteIoerrRead none
  | .fileSize => ∃ size : Int64, reply = .size sqliteOk (some size) ∧
      size.toInt = extent (writes pre)
  | _ => reply = .rc sqliteOk

theorem writes_snoc (pre : List FileOp) (op : FileOp) :
    writes (pre ++ [op]) = writes pre ++ writes [op] := List.filterMap_append

/-- A call that is no write leaves the file. -/
theorem refines_snoc {disk : Storage.State} {pre : List FileOp} {op : FileOp}
    (h : Refines disk (ofWrites (writes pre))) (hop : writes [op] = []) :
    Refines disk (ofWrites (writes (pre ++ [op]))) := by
  rwa [writes_snoc, hop, List.append_nil]

/-- One call: it is answered as written, and the disk goes on holding the file of the writes. -/
theorem fileStep_spec (file : Nat) {disk : Storage.State} {pre : List FileOp} {op : FileOp}
    (h : Refines disk (ofWrites (writes pre))) (hop : op.InRange) :
    ∃ disk' reply, fileStep file disk op = some (disk', reply) ∧
      Refines disk' (ofWrites (writes (pre ++ [op]))) ∧ AsWritten pre op reply := by
  cases op with
  | write buf iAmt iOfst =>
    obtain ⟨hin, hbuf⟩ := hop
    obtain ⟨disk', hw, href⟩ := sel4XWrite_spec h hin hbuf file
    refine ⟨disk', .rc sqliteOk, by rw [fileStep, fileCall, hw]; rfl, ?_, rfl⟩
    have hone : writes [FileOp.write buf iAmt iOfst] = [(iOfst.toInt.toNat, buf)] := rfl
    rw [writes_snoc, hone, ofWrites_snoc]
    exact href
  | truncate size => exact ⟨disk, .rc sqliteOk, rfl, refines_snoc h rfl, rfl⟩
  | read alloc iAmt iOfst =>
    have hr := sel4XRead_spec h hop (fun _ => alloc) file
    refine ⟨disk, _, by rw [fileStep, fileCall, hr]; rfl, refines_snoc h rfl, ?_⟩
    cases alloc <;> rfl
  | fileSize =>
    refine ⟨disk, .size sqliteOk (some disk.currentFileSize.toInt64), rfl, refines_snoc h rfl, _,
      rfl, ?_⟩
    rw [Int32.toInt_toInt64, h.size_eq, size_ofWrites]

/-- Every run of calls inside the disk leaves the file of its writes. -/
theorem exists_fileRun (file : Nat) {ops : List FileOp} (hops : ∀ op ∈ ops, op.InRange) :
    ∃ disk, runSteps (fileNext file) Storage.State.init ops = some disk ∧
      Refines disk (ofWrites (writes ops)) := by
  refine exists_runSteps (P := fun _ _ op => op.InRange)
    (I := fun pre disk => Refines disk (ofWrites (writes pre))) refines_init
    (fun pre disk op _ href hop => ?_) (fun pre op post _ hsplit _ => hops op (by simp [hsplit]))
  obtain ⟨disk', reply, hs, href', -⟩ := fileStep_spec file href hop
  exact ⟨disk', by rw [fileNext, hs]; rfl, href'⟩

/-- **The VFS answers as written**: in every run inside the disk, the size is the furthest end of a
write, and the reads succeed and deliver what was written last. -/
theorem repliesAsWritten (file : Nat) {ops : List FileOp} (hops : ∀ op ∈ ops, op.InRange) :
    Replies file AsWritten ops := by
  rintro pre op post rfl
  obtain ⟨disk, hrun, href⟩ := exists_fileRun file fun o ho => hops o (List.mem_append_left _ ho)
  obtain ⟨disk', reply, hs, -, hreply⟩ := fileStep_spec file href (hops op (by simp))
  exact ⟨disk, disk', reply, hrun, hs, hreply⟩

/-- A write, and the truncation of the file to nothing. -/
def truncateRun : List FileOp := [.write [83] 1 0, .truncate 0, .fileSize]

theorem repliesAsWritten_truncateRun : Replies 0 AsWritten truncateRun :=
  repliesAsWritten 0 (by decide)

/-- A run that keeps SQLite's length ends with the size that the VFS reports. -/
theorem extent_eq_of_keepsLength {file : Nat} (pre : List FileOp)
    (h : KeepsLength file (pre ++ [.fileSize])) (hops : ∀ op ∈ pre, op.InRange) :
    extent (writes pre) = (pre.foldl FileOp.apply ByteFile.empty).size := by
  obtain ⟨disk, disk', reply, hrun, hs, size, rfl, hsize⟩ := h pre _ [] rfl
  obtain ⟨disk₁, hrun₁, href⟩ := exists_fileRun file hops
  obtain rfl := Option.some.inj (hrun₁.symm.trans hrun)
  have hop : FileOp.fileSize.InRange := trivial
  obtain ⟨disk₂, reply, hs', -, size', rfl, hsize'⟩ := fileStep_spec file href hop
  obtain ⟨-, hreply⟩ := Prod.mk.inj (Option.some.inj (hs'.symm.trans hs))
  obtain ⟨-, hsome⟩ := FileReply.size.inj hreply
  obtain rfl := Option.some.inj hsome
  exact_mod_cast hsize'.symm.trans hsize

/-- The size after the truncation is still 1, a write of no bytes past the end makes the file
longer, and a read of the empty file succeeds. -/
theorem not_keepsLength_truncateRun : (∀ op ∈ truncateRun, op.InRange) ∧
    ¬ KeepsLength 0 truncateRun ∧ ¬ KeepsLength 0 [.write [] 0 5, .fileSize] ∧
      ¬ KeepsLength 0 [.read true 1 0] := by
  refine ⟨by decide, fun h => ?_, fun h => ?_, fun h => ?_⟩
  · exact absurd (extent_eq_of_keepsLength [_, _] h (by decide)) (by decide)
  · exact absurd (extent_eq_of_keepsLength [_] h (by decide)) (by decide)
  · obtain ⟨disk, disk', reply, hrun, hs, hreply⟩ := h [] _ [] rfl
    obtain rfl := Option.some.inj hrun
    have hok : fileStep 0 Storage.State.init (.read true 1 0) =
        some (Storage.State.init, .read sqliteOk (some [0])) := rfl
    obtain ⟨-, rfl⟩ := Prod.mk.inj (Option.some.inj (hok.symm.trans hs))
    have hshort : FileReply.read sqliteOk (some [0]) =
        .read sqliteIoerrShortRead (some [0]) := hreply
    exact absurd hshort (by decide)

end BankSel4.Vfs
