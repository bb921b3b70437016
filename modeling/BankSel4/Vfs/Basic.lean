import BankSel4.Storage.Disk

/-!
# The Ledger's VFS

The `sel4_x…` methods of `ledger.c` through which SQLite reaches the Storage component.  Each one
passes its request on over the Disk interface; none looks at the `file` it is called through (here
the number of the handle), because `sel4_file` has no field of its own.

A `State` is the Storage component together with the name each open handle was opened with.  No
method reads the names: they are there to say which handles belong to which file.
-/

namespace BankSel4.Vfs

/-- `SQLITE_OK`. -/
def sqliteOk : Int32 := 0
/-- `SQLITE_IOERR`. -/
def sqliteIoerr : Int32 := 10
/-- `SQLITE_IOERR_READ`. -/
def sqliteIoerrRead : Int32 := sqliteIoerr ||| ((1 : Int32) <<< 8)
/-- `SQLITE_IOERR_WRITE`. -/
def sqliteIoerrWrite : Int32 := sqliteIoerr ||| ((3 : Int32) <<< 8)

/-- `sel4_xRead`: the result, and the bytes copied to `buf` when it is `SQLITE_OK`. -/
def sel4XRead (malloc : Nat → Bool) (disk : Storage.State) (_file : Nat) (iAmt : Int32)
    (iOfst : Int64) : Except Fault (Int32 × Option Str) := do
  let r ← Storage.diskRead malloc disk iOfst.toInt32 iAmt
  match r.buf with
  | none => .ok (sqliteIoerrRead, none)
  | some outBuf =>
    if r.rc ≠ 0 then .ok (sqliteIoerrRead, none)
    -- `memcpy` of `iAmt` bytes out of what Storage returned
    else if outBuf.length < sizeOfInt iAmt then .error .outOfBounds
    else .ok (sqliteOk, some (outBuf.take (sizeOfInt iAmt)))

/-- `sel4_xWrite`. -/
def sel4XWrite (disk : Storage.State) (_file : Nat) (buf : Str) (iAmt : Int32) (iOfst : Int64) :
    Except Fault (Storage.State × Int32) := do
  let r ← Storage.diskWrite disk iOfst.toInt32 iAmt (sizeOfInt iAmt) buf
  .ok (r.1, if r.2 = 0 then sqliteOk else sqliteIoerrWrite)

/-- `sel4_xFileSize`: the result, and `*pSize` when it is `SQLITE_OK`. -/
def sel4XFileSize (disk : Storage.State) (_file : Nat) : Int32 × Option Int64 :=
  if (Storage.diskGetSize disk).1 = 0 then
    (sqliteOk, some (Storage.diskGetSize disk).2.toInt64)
  else (sqliteIoerr, none)

/-- `sel4_xTruncate`: stubbed. -/
def sel4XTruncate (disk : Storage.State) (_file : Nat) (_size : Int64) : Storage.State × Int32 :=
  (disk, sqliteOk)

/-- `sel4_xSync`. -/
def sel4XSync (disk : Storage.State) (_file : Nat) : Storage.State × Int32 :=
  ((Storage.diskSync disk).1, sqliteOk)

/-- `sel4_xClose`. -/
def sel4XClose (disk : Storage.State) (_file : Nat) : Storage.State × Int32 :=
  ((Storage.diskClose disk).1, sqliteOk)

/-- The name `sel4_xOpen` passes on: `zName`, or `main_db` for `NULL`. -/
def openName (zName : Option Str) : Str := zName.getD (bytes "main_db")

/-- `sel4_xOpen`: the result of `disk_open` is dropped. -/
def sel4XOpen (disk : Storage.State) (zName : Option Str) (_file : Nat) : Storage.State × Int32 :=
  ((Storage.diskOpen disk (openName zName)).1, sqliteOk)

/-! ### The methods as a step function -/

/-- The Storage component and the name each open handle was opened with. -/
structure State where
  /-- The state behind the Disk interface. -/
  disk : Storage.State
  /-- The handles that are open, and their names. -/
  names : Nat → Option Str

/-- The state before the first `sel4_xOpen`. -/
def State.init : State := ⟨Storage.State.init, fun _ => none⟩

/-- A call of a method through a handle; `alloc` says whether Storage's allocator serves a read. -/
inductive Op where
  | open (handle : Nat) (zName : Option Str)
  | read (handle : Nat) (alloc : Bool) (iAmt : Int32) (iOfst : Int64)
  | write (handle : Nat) (buf : Str) (iAmt : Int32) (iOfst : Int64)
  | fileSize (handle : Nat)
  | truncate (handle : Nat) (size : Int64)
  | sync (handle : Nat)
  | close (handle : Nat)
  deriving DecidableEq, Repr

/-- One call.  There is no successor when the handle is not open (for `open`, when it is), or when
the call faults. -/
def step (v : State) : Op → Option State
  | .open h zName =>
    if v.names h = none then
      some ⟨(sel4XOpen v.disk zName h).1, Function.update v.names h (some (openName zName))⟩
    else none
  | .read h alloc iAmt iOfst =>
    if v.names h = none then none
    else (sel4XRead (fun _ => alloc) v.disk h iAmt iOfst).toOption.map fun _ => v
  | .write h buf iAmt iOfst =>
    if v.names h = none then none
    else (sel4XWrite v.disk h buf iAmt iOfst).toOption.map fun r => ⟨r.1, v.names⟩
  | .fileSize h => if v.names h = none then none else some v
  | .truncate h size =>
    if v.names h = none then none else some ⟨(sel4XTruncate v.disk h size).1, v.names⟩
  | .sync h => if v.names h = none then none else some ⟨(sel4XSync v.disk h).1, v.names⟩
  | .close h =>
    if v.names h = none then none
    else some ⟨(sel4XClose v.disk h).1, Function.update v.names h none⟩

/-! ### The methods of one open file -/

/-- A call on an open file; `alloc` says whether Storage's allocator serves a read. -/
inductive FileOp where
  | write (buf : Str) (iAmt : Int32) (iOfst : Int64)
  | truncate (size : Int64)
  | read (alloc : Bool) (iAmt : Int32) (iOfst : Int64)
  | fileSize
  deriving DecidableEq, Repr

/-- What a call returns. -/
inductive FileReply where
  /-- The result. -/
  | rc (rc : Int32)
  /-- The result, and the bytes put into the caller's buffer. -/
  | read (rc : Int32) (buf : Option Str)
  /-- The result, and `*pSize`. -/
  | size (rc : Int32) (size : Option Int64)
  deriving DecidableEq, Repr

/-- One call on the open file `file`. -/
def fileCall (file : Nat) (disk : Storage.State) : FileOp → Except Fault (Storage.State × FileReply)
  | .write buf iAmt iOfst => (sel4XWrite disk file buf iAmt iOfst).map fun r => (r.1, .rc r.2)
  | .truncate size =>
    .ok ((sel4XTruncate disk file size).1, .rc (sel4XTruncate disk file size).2)
  | .read alloc iAmt iOfst =>
    (sel4XRead (fun _ => alloc) disk file iAmt iOfst).map fun r => (disk, .read r.1 r.2)
  | .fileSize => .ok (disk, .size (sel4XFileSize disk file).1 (sel4XFileSize disk file).2)

/-- One call, without a successor where it faults. -/
def fileStep (file : Nat) (disk : Storage.State) (op : FileOp) :
    Option (Storage.State × FileReply) :=
  (fileCall file disk op).toOption

end BankSel4.Vfs
