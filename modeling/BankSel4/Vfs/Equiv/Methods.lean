import BankSel4.Storage.Equiv.ByteFile
import BankSel4.Vfs.Basic

/-!
# The VFS methods on a disk

What `sel4_xRead` and `sel4_xWrite` return.  Both cast the offset to an `int`.
`sel4XRead_of_malloc` is about the offset after the cast; for a range inside the disk the cast does
nothing, and the two methods read and write the byte file that the disk holds (`sel4XRead_spec`,
`sel4XWrite_spec`).
-/

namespace BankSel4.Vfs

open Storage

/-- A range inside the disk, as SQLite passes it. -/
def InDisk (iAmt : Int32) (iOfst : Int64) : Prop :=
  0 ≤ iOfst.toInt ∧ 0 ≤ iAmt.toInt ∧ iOfst.toInt + iAmt.toInt ≤ diskSize

instance (iAmt : Int32) (iOfst : Int64) : Decidable (InDisk iAmt iOfst) :=
  inferInstanceAs (Decidable (_ ∧ _))

/-- An offset that is an `int` survives the cast. -/
theorem toInt_toInt32_of_lt {iOfst : Int64} (h0 : 0 ≤ iOfst.toInt) (h : iOfst.toInt < 2 ^ 31) :
    iOfst.toInt32.toInt = iOfst.toInt := by
  rw [Int64.toInt_toInt32, Int.bmod_def]
  omega

/-- An offset inside the disk survives the cast. -/
theorem InDisk.toInt_toInt32 {iAmt : Int32} {iOfst : Int64} (h : InDisk iAmt iOfst) :
    iOfst.toInt32.toInt = iOfst.toInt := by
  obtain ⟨h0, ha, hle⟩ := h
  have hdisk : diskSize = 1048576 := rfl
  exact toInt_toInt32_of_lt h0 (by omega)

section Read

variable {malloc : Nat → Bool} {disk : Storage.State} {iAmt : Int32} {iOfst : Int64}

/-- A read of any disk delivers the bytes at the offset that the cast leaves. -/
theorem sel4XRead_of_malloc (h : disk.SizeInDisk) (hcast : 0 ≤ iOfst.toInt32.toInt)
    (ha : 0 ≤ iAmt.toInt) (hsum : disk.currentFileSize ≤ iOfst.toInt32 ∨
      InInt (iOfst.toInt32.toInt + iAmt.toInt)) (hm : malloc (sizeOfInt iAmt)) (file : Nat) :
    sel4XRead malloc disk file iAmt iOfst =
      .ok (sqliteOk, some (disk.file.read iOfst.toInt32.toInt.toNat (sizeOfInt iAmt))) := by
  rw [sel4XRead, diskRead_of_malloc h hcast ha hsum hm]
  simp [bind, Except.bind, List.take_of_length_le]

/-- A read that the allocator does not serve is an error. -/
theorem sel4XRead_of_not_malloc (h : disk.SizeInDisk) (hsum : disk.currentFileSize ≤ iOfst.toInt32 ∨
      InInt (iOfst.toInt32.toInt + iAmt.toInt)) (hm : ¬malloc (sizeOfInt iAmt)) (file : Nat) :
    sel4XRead malloc disk file iAmt iOfst = .ok (sqliteIoerrRead, none) := by
  obtain ⟨rc, bufSz, hr⟩ := diskRead_of_not_malloc h hsum hm
  rw [sel4XRead, hr]
  rfl

/-- **`sel4_xRead`** of a range inside the disk. -/
theorem sel4XRead_spec {f : ByteFile UInt8} (h : Refines disk f) (hin : InDisk iAmt iOfst)
    (malloc : Nat → Bool) (file : Nat) :
    sel4XRead malloc disk file iAmt iOfst =
      .ok (if malloc (sizeOfInt iAmt) then
        (sqliteOk, some (f.read iOfst.toInt.toNat (sizeOfInt iAmt)))
      else (sqliteIoerrRead, none)) := by
  have hcast := hin.toInt_toInt32
  obtain ⟨h0, ha, hle⟩ := hin
  have hdisk : diskSize = 1048576 := rfl
  have hsum : InInt (iOfst.toInt32.toInt + iAmt.toInt) := ⟨by omega, by omega⟩
  by_cases hm : malloc (sizeOfInt iAmt)
  · rw [sel4XRead_of_malloc h.sizeInDisk (by omega) ha (Or.inr hsum) hm, if_pos hm, hcast,
      h.file_eq]
  · rw [sel4XRead_of_not_malloc h.sizeInDisk (Or.inr hsum) hm, if_neg hm]

end Read

/-- **`sel4_xWrite`** of a range inside the disk. -/
theorem sel4XWrite_spec {disk : Storage.State} {f : ByteFile UInt8} (h : Refines disk f)
    {buf : Str} {iAmt : Int32} {iOfst : Int64} (hin : InDisk iAmt iOfst)
    (hbuf : iAmt.toInt = buf.length) (file : Nat) :
    ∃ disk', sel4XWrite disk file buf iAmt iOfst = .ok (disk', sqliteOk) ∧
      Refines disk' (f.write iOfst.toInt.toNat buf) := by
  have hcast := hin.toInt_toInt32
  obtain ⟨h0, ha, hle⟩ := hin
  have hsz : sizeOfInt iAmt = buf.length := by
    have := sizeOfInt_of_nonneg ha
    omega
  obtain ⟨disk', hw, href⟩ : ∃ disk',
      diskWrite disk iOfst.toInt32 iAmt buf.length buf = .ok (disk', 0) ∧
        Refines disk' (f.write iOfst.toInt32.toInt.toNat buf) :=
    diskWrite_of_le h (by omega) hbuf (by omega)
  rw [hcast] at href
  refine ⟨disk', ?_, href⟩
  rw [sel4XWrite, hsz, hw]
  rfl

end BankSel4.Vfs
