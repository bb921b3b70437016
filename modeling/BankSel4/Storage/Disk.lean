import BankSel4.Bytes.Memory

/-!
# The Storage component

`storage.c`: one array of `DISK_SIZE` bytes and the size of the file on it, behind the six calls of
the Disk interface.  The array and the size are the whole state; there is one file, whatever name
`diskOpen` is given.

Sums of `int`s and the accesses to the array are checked, so a request that C leaves undefined ends
in a `Fault`.  `malloc n` says whether an allocation of `n` bytes is served.
-/

namespace BankSel4.Storage

/-- `DISK_SIZE`. -/
def diskSize : Nat := 1024 * 1024

/-- The static variables of the component. -/
structure State where
  /-- `physical_disk`. -/
  physicalDisk : Mem diskSize
  /-- `current_file_size`. -/
  currentFileSize : Int32

/-- The state the component starts in. -/
def State.init : State := ⟨Mem.zero, 0⟩

/-- What `disk_read` hands back: its result and its two out parameters. -/
structure ReadReply where
  /-- The returned value. -/
  rc : Int32
  /-- `*buf_sz`. -/
  bufSz : Nat
  /-- `*buf`, `none` for `NULL`. -/
  buf : Option Str
  deriving DecidableEq, Repr

/-- `disk_open`: the name is printed and not kept. -/
def diskOpen (s : State) (_filename : Str) : State × Int32 := (s, 0)

/-- `disk_close`. -/
def diskClose (s : State) : State × Int32 := (s, 0)

/-- `bytes_to_read`: the request clamped to what the file has from `offset` on. -/
def bytesToRead (s : State) (offset amount : Int32) : Except Fault Int32 := do
  let stop ← addInt offset amount
  if s.currentFileSize < stop then subInt s.currentFileSize offset else .ok amount

/-- `disk_read`. -/
def diskRead (malloc : Nat → Bool) (s : State) (offset amount : Int32) : Except Fault ReadReply :=
  if s.currentFileSize ≤ offset then
    -- past the end of the file: `calloc(amount, 1)`, not checked
    .ok ⟨0, sizeOfInt amount,
      if malloc (sizeOfInt amount) then some (List.replicate (sizeOfInt amount) 0) else none⟩
  else do
    let n ← bytesToRead s offset amount
    if malloc (sizeOfInt amount) then
      let data ← s.physicalDisk.memcpyFrom offset.toInt (sizeOfInt n)
      -- the copy goes to the start of a zeroed buffer of `amount` bytes
      if data.length ≤ sizeOfInt amount then
        .ok ⟨0, sizeOfInt amount,
          some (data ++ List.replicate (sizeOfInt amount - data.length) 0)⟩
      else .error .outOfBounds
    else .ok ⟨-1, 0, none⟩

/-- `disk_write`: the request is checked with `amount`, the copy is of `buf_sz` bytes. -/
def diskWrite (s : State) (offset amount : Int32) (bufSz : Nat) (buf : Str) :
    Except Fault (State × Int32) := do
  let stop ← addInt offset amount
  if (diskSize : Int) < stop.toInt then .ok (s, -1)
  -- `memcpy` would read behind the caller's buffer
  else if buf.length < bufSz then .error .outOfBounds
  else
    let disk ← s.physicalDisk.perform ⟨offset.toInt, buf.take bufSz⟩
    .ok (⟨disk, if s.currentFileSize < stop then stop else s.currentFileSize⟩, 0)

/-- A write that returns has refused the request, or has made its copy. -/
theorem diskWrite_cases {s : State} {offset amount : Int32} {bufSz : Nat} {buf : Str}
    {r : State × Int32} (h : diskWrite s offset amount bufSz buf = .ok r) :
    ∃ stop, addInt offset amount = .ok stop ∧
      ((diskSize : Int) < stop.toInt ∧ r = (s, -1) ∨
        stop.toInt ≤ (diskSize : Int) ∧ bufSz ≤ buf.length ∧
          ∃ disk, s.physicalDisk.perform ⟨offset.toInt, buf.take bufSz⟩ = .ok disk ∧
            r = (⟨disk, if s.currentFileSize < stop then stop else s.currentFileSize⟩, 0)) := by
  obtain ⟨stop, hstop, h⟩ := except_bind_eq_ok.mp h
  refine ⟨stop, hstop, ?_⟩
  by_cases hfull : (diskSize : Int) < stop.toInt
  · rw [if_pos hfull] at h
    exact Or.inl ⟨hfull, (Except.ok.inj h).symm⟩
  · rw [if_neg hfull] at h
    by_cases hshort : buf.length < bufSz
    · rw [if_pos hshort] at h
      cases h
    · rw [if_neg hshort] at h
      obtain ⟨disk, hdisk, h⟩ := except_bind_eq_ok.mp h
      exact Or.inr ⟨not_lt.mp hfull, not_lt.mp hshort, disk, hdisk, (Except.ok.inj h).symm⟩

/-- `disk_get_size`: the result and `*size`. -/
def diskGetSize (s : State) : Int32 × Int32 := (0, s.currentFileSize)

/-- `disk_sync`. -/
def diskSync (s : State) : State × Int32 := (s, 0)

/-! ### The component as a step function -/

/-- A call of the Disk interface. -/
inductive Op where
  | open (filename : Str)
  | close
  | read (offset amount : Int32)
  | write (offset amount : Int32) (bufSz : Nat) (buf : Str)
  | getSize
  | sync
  deriving DecidableEq, Repr

/-- The reply to a call. -/
inductive Reply where
  /-- The returned value of a call without out parameters. -/
  | rc (rc : Int32)
  /-- The reply of `disk_read`. -/
  | read (r : ReadReply)
  /-- The returned value and `*size` of `disk_get_size`. -/
  | size (rc size : Int32)
  deriving DecidableEq, Repr

/-- One call. -/
def call (malloc : Nat → Bool) (s : State) : Op → Except Fault (State × Reply)
  | .open filename => .ok ((diskOpen s filename).1, .rc (diskOpen s filename).2)
  | .close => .ok ((diskClose s).1, .rc (diskClose s).2)
  | .read offset amount => (diskRead malloc s offset amount).map fun r => (s, .read r)
  | .write offset amount bufSz buf =>
    (diskWrite s offset amount bufSz buf).map fun r => (r.1, .rc r.2)
  | .getSize => .ok (s, .size (diskGetSize s).1 (diskGetSize s).2)
  | .sync => .ok ((diskSync s).1, .rc (diskSync s).2)

/-- One call, without a successor where the call faults. -/
def step (malloc : Nat → Bool) (s : State) (op : Op) : Option (State × Reply) :=
  (call malloc s op).toOption

end BankSel4.Storage
