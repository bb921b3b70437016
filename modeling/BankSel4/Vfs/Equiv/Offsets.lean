import BankSel4.Vfs.Equiv.Methods

/-!
# Offsets of 64 bits

SQLite's offsets have 64 bits, and the methods cast them to `int`.  So a request at or past `2 ^ 31`
reaches the disk at another offset, where the check of `disk_write` may let it pass.

`offsetsKept_iff` says for which requests the offset does not get lost: on any disk, a write stores
its bytes at its own offset or is refused, and a read delivers the bytes at its own offset or is
refused.
-/

namespace BankSel4.Vfs

open Storage

/-- The bytes are stored at the offset, which has room for them on the disk, and nowhere else. -/
def Stored (disk disk' : Storage.State) (buf : Str) (iOfst : Int64) : Prop :=
  iOfst.toInt + buf.length ≤ diskSize ∧
    disk'.physicalDisk.byte = overlay disk.physicalDisk.byte iOfst.toInt.toNat buf

/-- The write returns; it has stored its bytes if the result is `SQLITE_OK`, and has left the disk
as it was if it is an error. -/
def WriteKept (disk : Storage.State) (file : Nat) (buf : Str) (iAmt : Int32) (iOfst : Int64) :
    Prop :=
  ∃ disk' rc, sel4XWrite disk file buf iAmt iOfst = .ok (disk', rc) ∧
    (rc = sqliteOk ∧ Stored disk disk' buf iOfst ∨ rc ≠ sqliteOk ∧ disk' = disk)

/-- The read returns; it has delivered the bytes at its offset, zeros past the end of the file, if
the result is `SQLITE_OK`. -/
def ReadKept (malloc : Nat → Bool) (disk : Storage.State) (file : Nat) (iAmt : Int32)
    (iOfst : Int64) : Prop :=
  ∃ rc bs, sel4XRead malloc disk file iAmt iOfst = .ok (rc, bs) ∧
    (rc = sqliteOk → bs = some (disk.file.read iOfst.toInt.toNat (sizeOfInt iAmt)))

/-- The write ends on the disk, or what the cast makes of its end is past the disk. -/
def WriteFits (iAmt : Int32) (iOfst : Int64) : Prop :=
  iOfst.toInt + iAmt.toInt ≤ diskSize ∨
    (diskSize : Int) < iOfst.toInt32.toInt + iAmt.toInt ∧ iOfst.toInt32.toInt + iAmt.toInt < 2 ^ 31

instance (iAmt : Int32) (iOfst : Int64) : Decidable (WriteFits iAmt iOfst) :=
  inferInstanceAs (Decidable (_ ∨ _))

/-- What the cast makes of the offset is past the end of the file, or it is the offset itself, or
the file has only zeros there; or the allocation fails. -/
def ReadFits (malloc : Nat → Bool) (disk : Storage.State) (iAmt : Int32) (iOfst : Int64) : Prop :=
  disk.currentFileSize ≤ iOfst.toInt32 ∨
    iOfst.toInt32.toInt + iAmt.toInt < 2 ^ 31 ∧ (¬ malloc (sizeOfInt iAmt) ∨
      0 ≤ iOfst.toInt32.toInt ∧ (iOfst.toInt < 2 ^ 31 ∨
        ∀ k < sizeOfInt iAmt, disk.file.content (iOfst.toInt32.toInt.toNat + k) = 0))

section Offsets

variable {malloc : Nat → Bool} {disk : Storage.State} {iAmt : Int32} {iOfst : Int64}

/-! ### Writes -/

/-- What a write that returns has done. -/
theorem sel4XWrite_cases {file : Nat} {buf : Str} {disk' : Storage.State} {rc : Int32}
    (h : sel4XWrite disk file buf iAmt iOfst = .ok (disk', rc)) :
    InInt (iOfst.toInt32.toInt + iAmt.toInt) ∧
      ((diskSize : Int) < iOfst.toInt32.toInt + iAmt.toInt ∧ disk' = disk ∧ rc = sqliteIoerrWrite ∨
        iOfst.toInt32.toInt + iAmt.toInt ≤ diskSize ∧ rc = sqliteOk ∧
          disk.physicalDisk.perform ⟨iOfst.toInt32.toInt, buf.take (sizeOfInt iAmt)⟩ =
            .ok disk'.physicalDisk) := by
  obtain ⟨r, hr, h⟩ := except_bind_eq_ok.mp h
  obtain ⟨rfl, rfl⟩ := Prod.mk.inj (Except.ok.inj h)
  obtain ⟨stop, hstop, hcase⟩ := diskWrite_cases hr
  have hval := addInt_eq_ok_iff.mp hstop
  refine ⟨inInt_of_addInt hstop, ?_⟩
  rw [← hval]
  rcases hcase with ⟨hfull, rfl⟩ | ⟨hle, -, mem, hmem, rfl⟩
  · exact Or.inl ⟨hfull, rfl, rfl⟩
  · exact Or.inr ⟨hle, rfl, hmem⟩

/-- A write that ends on the disk stores its bytes. -/
theorem stored_of_le (disk : Storage.State) (file : Nat) {buf : Str}
    (hbuf : iAmt.toInt = buf.length) (h0 : 0 ≤ iOfst.toInt)
    (hle : iOfst.toInt + iAmt.toInt ≤ diskSize) :
    ∃ disk', sel4XWrite disk file buf iAmt iOfst = .ok (disk', sqliteOk) ∧
      Stored disk disk' buf iOfst := by
  have hcast := InDisk.toInt_toInt32 (⟨h0, by omega, hle⟩ : InDisk iAmt iOfst)
  have hsz : sizeOfInt iAmt = buf.length := by
    have := sizeOfInt_of_nonneg (a := iAmt) (by omega)
    omega
  obtain ⟨stop, -, hw⟩ := diskWrite_of_within disk (by omega) hbuf (hcast ▸ hle)
  refine ⟨_, by rw [sel4XWrite, hsz, hw]; rfl, by omega, ?_⟩
  rw [hcast]
  exact Mem.byte_store _ (by omega)

theorem writeKept_iff {file : Nat} {buf : Str} (hbuf : iAmt.toInt = buf.length)
    (h0 : 0 ≤ iOfst.toInt) : WriteKept disk file buf iAmt iOfst ↔ WriteFits iAmt iOfst := by
  constructor
  · rintro ⟨disk', rc, hw, hkept⟩
    obtain ⟨hsum, hcase⟩ := sel4XWrite_cases hw
    rcases hcase with ⟨hfull, -, -⟩ | ⟨-, rfl, -⟩
    · exact Or.inr ⟨hfull, hsum.2⟩
    · -- a write that is not refused must be one on the disk
      rcases hkept with ⟨-, hstored⟩ | ⟨hne, -⟩
      · exact Or.inl (hbuf ▸ hstored.1)
      · exact absurd rfl hne
  · rintro (hle | ⟨hfull, hmax⟩)
    · obtain ⟨disk', hw, hstored⟩ := stored_of_le disk file hbuf h0 hle
      exact ⟨disk', sqliteOk, hw, Or.inl ⟨rfl, hstored⟩⟩
    · refine ⟨disk, sqliteIoerrWrite, ?_, Or.inr ⟨by decide, rfl⟩⟩
      rw [sel4XWrite, diskWrite_of_lt hfull hmax]
      rfl

/-! ### Reads -/

/-- Past `2 ^ 31` every file has zeros. -/
theorem read_file_of_le (h : disk.SizeInDisk) (hfar : 2 ^ 31 ≤ iOfst.toInt) (len : Nat) :
    disk.file.read iOfst.toInt.toNat len = List.replicate len 0 := by
  have hdisk : diskSize = 1048576 := rfl
  have hhi := h.2
  refine ByteFile.read_of_size_le _ ?_ len
  show disk.currentFileSize.toInt.toNat ≤ iOfst.toInt.toNat
  omega

/-- The bytes at the two offsets agree when the offsets do, or when both are zeros. -/
theorem read_cast_iff (h : disk.SizeInDisk) (h0 : 0 ≤ iOfst.toInt) (len : Nat) :
    disk.file.read iOfst.toInt32.toInt.toNat len = disk.file.read iOfst.toInt.toNat len ↔
      iOfst.toInt < 2 ^ 31 ∨
        ∀ k < len, disk.file.content (iOfst.toInt32.toInt.toNat + k) = 0 := by
  by_cases hnear : iOfst.toInt < 2 ^ 31
  · rw [toInt_toInt32_of_lt h0 hnear]
    exact iff_of_true rfl (Or.inl hnear)
  · rw [read_file_of_le h (not_lt.mp hnear), or_iff_right hnear, ByteFile.read_eq_replicate_iff]

/-- A read below the end of the file that returns has computed its end, and has started on the disk
if there was a buffer. -/
theorem of_sel4XRead {file : Nat} {r : Int32 × Option Str}
    (hpast : ¬ disk.currentFileSize ≤ iOfst.toInt32)
    (hr : sel4XRead malloc disk file iAmt iOfst = .ok r) :
    InInt (iOfst.toInt32.toInt + iAmt.toInt) ∧
      (malloc (sizeOfInt iAmt) → 0 ≤ iOfst.toInt32.toInt) := by
  -- the call returns, so the sum does not overflow and the copy can be made
  obtain ⟨r', hdisk, -⟩ := except_bind_eq_ok.mp hr
  obtain ⟨w, hw, hvalid⟩ := diskRead_eq_ok_iff.mp ⟨r', hdisk⟩
  rw [readCopy, if_neg hpast] at hw
  obtain ⟨n, hn, hw⟩ := except_bind_eq_ok.mp hw
  obtain ⟨stop, hstop, -⟩ := except_bind_eq_ok.mp hn
  refine ⟨inInt_of_addInt hstop, fun hm => ?_⟩
  rw [if_pos hm] at hw
  exact (hvalid _ (Except.ok.inj hw).symm).1

/-- A read that the cast moves past the end of the file delivers zeros, and so does the file. -/
theorem readKept_of_past (h : disk.SizeInDisk) (h0 : 0 ≤ iOfst.toInt) (ha : 0 ≤ iAmt.toInt)
    (file : Nat) (hpast : disk.currentFileSize ≤ iOfst.toInt32) :
    ReadKept malloc disk file iAmt iOfst := by
  have hne : sqliteIoerrRead ≠ sqliteOk := by decide
  by_cases hm : malloc (sizeOfInt iAmt)
  · have hle := Int32.le_iff_toInt_le.mp hpast
    have hcast : 0 ≤ iOfst.toInt32.toInt := h.1.trans hle
    have hsize : disk.file.size ≤ iOfst.toInt32.toInt.toNat := by
      show disk.currentFileSize.toInt.toNat ≤ _
      omega
    refine ⟨_, _, sel4XRead_of_malloc h hcast ha (Or.inl hpast) hm file, fun _ => ?_⟩
    refine congrArg some ((read_cast_iff h h0 _).mpr (Or.inr fun k _ => ?_))
    exact disk.file.content_eq_zero _ (by omega)
  · exact ⟨_, _, sel4XRead_of_not_malloc h (Or.inl hpast) hm file, fun hrc => absurd hrc hne⟩

theorem readKept_iff (h : disk.SizeInDisk) (h0 : 0 ≤ iOfst.toInt) (ha : 0 ≤ iAmt.toInt)
    (file : Nat) : ReadKept malloc disk file iAmt iOfst ↔ ReadFits malloc disk iAmt iOfst := by
  have hne : sqliteIoerrRead ≠ sqliteOk := by decide
  constructor
  · rintro ⟨rc, bs, hr, hkept⟩
    by_cases hpast : disk.currentFileSize ≤ iOfst.toInt32
    · exact Or.inl hpast
    obtain ⟨hsum, hstart⟩ := of_sel4XRead hpast hr
    refine Or.inr ⟨hsum.2, ?_⟩
    by_cases hm : malloc (sizeOfInt iAmt)
    · have hcast := hstart hm
      have hread := sel4XRead_of_malloc h hcast ha (Or.inr hsum) hm file
      obtain ⟨rfl, rfl⟩ := Prod.mk.inj (Except.ok.inj (hr.symm.trans hread))
      exact Or.inr ⟨hcast, (read_cast_iff h h0 _).mp (Option.some.inj (hkept rfl))⟩
    · exact Or.inl hm
  · rintro (hpast | ⟨hmax, hcase⟩)
    · exact readKept_of_past h h0 ha file hpast
    · by_cases hm : malloc (sizeOfInt iAmt)
      · obtain ⟨hcast, hbytes⟩ := hcase.resolve_left (not_not.mpr hm)
        have hsum : InInt (iOfst.toInt32.toInt + iAmt.toInt) := ⟨by omega, hmax⟩
        refine ⟨_, _, sel4XRead_of_malloc h hcast ha (Or.inr hsum) hm file, fun _ => ?_⟩
        exact congrArg some ((read_cast_iff h h0 _).mpr hbytes)
      · have hlo := iOfst.toInt32.le_toInt
        have hsum : InInt (iOfst.toInt32.toInt + iAmt.toInt) := ⟨by omega, hmax⟩
        exact ⟨_, _, sel4XRead_of_not_malloc h (Or.inr hsum) hm file, fun hrc => absurd hrc hne⟩

/-- **Offsets survive the trip to the disk** exactly for the requests that the cast leaves alone, or
moves past the end, or between zeros. -/
theorem offsetsKept_iff (h : disk.SizeInDisk) (h0 : 0 ≤ iOfst.toInt) (ha : 0 ≤ iAmt.toInt)
    (file : Nat) :
    (∀ buf : Str, iAmt.toInt = buf.length →
      (WriteKept disk file buf iAmt iOfst ↔ WriteFits iAmt iOfst)) ∧
    (ReadKept malloc disk file iAmt iOfst ↔ ReadFits malloc disk iAmt iOfst) :=
  ⟨fun _ hbuf => writeKept_iff hbuf h0, readKept_iff h h0 ha file⟩

end Offsets

/-- A page at the end of the disk. -/
theorem offsetsKept_iff_page :
    (∀ buf : Str, (4096 : Int32).toInt = buf.length →
      (WriteKept Storage.State.init 0 buf 4096 1044480 ↔ WriteFits 4096 1044480)) ∧
    (ReadKept (fun _ => true) Storage.State.init 0 4096 1044480 ↔
      ReadFits (fun _ => true) Storage.State.init 4096 1044480) :=
  offsetsKept_iff (by decide) (by decide) (by decide) 0

/-- The byte for the offset `2 ^ 32` is stored at the offset 0. -/
theorem not_writeKept_wrapped : Storage.State.init.SizeInDisk ∧ 0 ≤ (4294967296 : Int64).toInt ∧
    (1 : Int32).toInt = ([83] : Str).length ∧
    ¬ WriteKept Storage.State.init 0 [83] 1 4294967296 := by
  refine ⟨by decide, by decide, by decide, ?_⟩
  rintro ⟨disk', rc, hw, ⟨-, hroom, -⟩ | ⟨hne, -⟩⟩
  · exact absurd hroom (by decide)
  · have hbuf : (1 : Int32).toInt = ([83] : Str).length := by decide
    have h0 : 0 ≤ (0 : Int64).toInt := by decide
    obtain ⟨disk'', hw', -⟩ := stored_of_le Storage.State.init 0 hbuf h0 (by decide)
    have hcast : sel4XWrite Storage.State.init 0 [83] 1 4294967296 =
        sel4XWrite Storage.State.init 0 [83] 1 0 := rfl
    obtain ⟨-, rfl⟩ := Prod.mk.inj (Except.ok.inj (hw.symm.trans (hcast.trans hw')))
    exact hne rfl

end BankSel4.Vfs
