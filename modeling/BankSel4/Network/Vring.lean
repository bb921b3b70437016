import BankSel4.Algorithm.Ring

/-!
# Virtqueues

A `Vring` is what driver and device share of a virtqueue: the descriptors, the avail ring that the
driver fills and the used ring that the device fills.  Both indices count up without end in 16 bits,
and the entry with index `i` is in the slot `i % RING_SIZE`.

`Vring.avail vr next` are the entries of the avail ring from the index `next` on, and `Vring.used vr
last` those of the used ring from `last` on.  The number of slots divides `2 ^ 16`, so the wrapping
of the indices does not show: each operation on a ring appends one entry to such a list or takes one
from its front.
-/

namespace BankSel4.Network

/-- `RING_SIZE`. -/
def ringSize : Nat := 256

/-- The bytes of one packet buffer, a row of `rx_buffer` or `tx_buffer`. -/
def bufferSize : Nat := 1536

/-- `struct vring_desc`.  A buffer's address is its offset in its array; `next` is not used. -/
structure VringDesc where
  addr : Nat
  len : UInt32
  flags : UInt16
  deriving DecidableEq, Repr

/-- `VRING_DESC_F_WRITE`: the device may write the buffer. -/
def vringDescFWrite : UInt16 := 2

/-- `struct vring_used_elem`. -/
structure VringUsedElem where
  id : UInt32
  len : UInt32
  deriving DecidableEq, Repr

/-- `struct vring` and the memory it points to. -/
structure Vring where
  desc : Nat → VringDesc
  /-- `avail->ring`. -/
  availRing : Nat → UInt16
  /-- `avail->idx`. -/
  availIdx : UInt16
  /-- `used->ring`. -/
  usedRing : Nat → VringUsedElem
  /-- `used->idx`. -/
  usedIdx : UInt16

/-- The slot of an index: `idx % RING_SIZE`. -/
def slot (idx : UInt16) : Nat := idx.toNat % ringSize

theorem slot_lt (idx : UInt16) : slot idx < ringSize := Nat.mod_lt _ (by decide)

/-! ### Indices -/

section Indices

variable {α : Type*} {slots : Nat → α} {lo hi : UInt16}

/-- How far the index `hi` is ahead of `lo`. -/
def distance (lo hi : UInt16) : Nat := (hi - lo).toNat

theorem distance_self (lo : UInt16) : distance lo lo = 0 := by
  rw [distance, UInt16.sub_self]
  rfl

theorem distance_eq_zero_iff : distance lo hi = 0 ↔ lo = hi := by
  have hlo := lo.toNat_lt
  have hhi := hi.toNat_lt
  rw [distance, UInt16.toNat_sub, ← UInt16.toNat_inj]
  omega

theorem distance_succ_right (h : distance lo hi < 65535) :
    distance lo (hi + 1) = distance lo hi + 1 := by
  have hlo := lo.toNat_lt
  have hhi := hi.toNat_lt
  rw [distance, UInt16.toNat_sub] at h ⊢
  rw [distance, UInt16.toNat_sub, UInt16.toNat_add, UInt16.toNat_one]
  omega

theorem distance_succ_left (h : lo ≠ hi) : distance lo hi = distance (lo + 1) hi + 1 := by
  have hlo := lo.toNat_lt
  have hhi := hi.toNat_lt
  rw [Ne, ← UInt16.toNat_inj] at h
  rw [distance, UInt16.toNat_sub, distance, UInt16.toNat_sub, UInt16.toNat_add, UInt16.toNat_one]
  omega

/-- The slot of an index that is ahead. -/
theorem slot_of_distance (lo hi : UInt16) : slot hi = (lo.toNat + distance lo hi) % ringSize := by
  have hlo := lo.toNat_lt
  have hhi := hi.toNat_lt
  -- 256 divides `2 ^ 16`, so an index that wraps around keeps its slot
  rw [slot, distance, UInt16.toNat_sub, ringSize]
  omega

theorem slot_add_ofNat (lo : UInt16) (k : Nat) :
    slot (lo + UInt16.ofNat k) = (lo.toNat + k) % ringSize := by
  rw [slot, UInt16.toNat_add, UInt16.toNat_ofNat', ringSize]
  omega

theorem toNat_succ_mod (lo : UInt16) : (lo + 1).toNat % ringSize = (lo.toNat + 1) % ringSize := by
  rw [UInt16.toNat_add, UInt16.toNat_one, ringSize]
  omega

/-- The entries of a ring from the index `lo` up to the index `hi`. -/
def between (slots : Nat → α) (lo hi : UInt16) : List α :=
  ringEntries ringSize slots lo.toNat (distance lo hi)

@[simp] theorem length_between : (between slots lo hi).length = distance lo hi :=
  length_ringEntries _ _

theorem between_self (lo : UInt16) : between slots lo lo = [] := by
  rw [between, distance_self, ringEntries_zero]

theorem between_eq_nil_iff : between slots lo hi = [] ↔ lo = hi := by
  rw [← List.length_eq_zero_iff, length_between, distance_eq_zero_iff]

/-- The first entry. -/
theorem between_cons (h : lo ≠ hi) :
    between slots lo hi = slots (slot lo) :: between slots (lo + 1) hi := by
  rw [between, distance_succ_left h, ringEntries_cons, between,
    ringEntries_of_mod_eq (toNat_succ_mod lo).symm]
  rfl

/-- One entry more. -/
theorem between_succ (h : distance lo hi < 65535) :
    between slots lo (hi + 1) = between slots lo hi ++ [slots (slot hi)] := by
  rw [between, distance_succ_right h, ringEntries_succ, ← slot_of_distance]
  rfl

/-- Filling the slot of the next entry. -/
theorem between_update (h : distance lo hi < ringSize) (a : α) :
    between (Function.update slots (slot hi) a) lo hi = between slots lo hi := by
  rw [between, slot_of_distance lo hi]
  exact ringEntries_update_next h a

end Indices

/-! ### The operations of driver and device -/

namespace Vring

/-- The ring memory as static storage starts. -/
def zero : Vring where
  desc _ := ⟨0, 0, 0⟩
  availRing _ := 0
  availIdx := 0
  usedRing _ := ⟨0, 0⟩
  usedIdx := 0

variable {vr : Vring} {next last : UInt16}

/-- The entries of the avail ring from the index `next` on. -/
def avail (vr : Vring) (next : UInt16) : List UInt16 := between vr.availRing next vr.availIdx

/-- The entries of the used ring from the index `last` on. -/
def used (vr : Vring) (last : UInt16) : List VringUsedElem := between vr.usedRing last vr.usedIdx

/-- `desc[i] = d`. -/
def setDesc (vr : Vring) (i : Nat) (d : VringDesc) : Vring :=
  { vr with desc := Function.update vr.desc i d }

/-- `avail->ring[avail->idx % RING_SIZE] = id`. -/
def putAvail (vr : Vring) (id : UInt16) : Vring :=
  { vr with availRing := Function.update vr.availRing (slot vr.availIdx) id }

/-- `avail->idx++`. -/
def bumpAvail (vr : Vring) : Vring := { vr with availIdx := vr.availIdx + 1 }

/-- The device completes a descriptor: it writes the next used element and advances `used->idx`. -/
def complete (vr : Vring) (e : VringUsedElem) : Vring :=
  { vr with usedRing := Function.update vr.usedRing (slot vr.usedIdx) e, usedIdx := vr.usedIdx + 1 }

theorem avail_putAvail (h : distance next vr.availIdx < ringSize) (id : UInt16) :
    (vr.putAvail id).avail next = vr.avail next :=
  between_update h id

theorem avail_bumpAvail (h : distance next vr.availIdx < 65535) :
    vr.bumpAvail.avail next = vr.avail next ++ [vr.availRing (slot vr.availIdx)] :=
  between_succ h

/-- The next entry that the device takes. -/
theorem avail_cons (h : next ≠ vr.availIdx) :
    vr.avail next = vr.availRing (slot next) :: vr.avail (next + 1) :=
  between_cons h

/-- The next element that the driver handles. -/
theorem used_cons (h : last ≠ vr.usedIdx) :
    vr.used last = vr.usedRing (slot last) :: vr.used (last + 1) :=
  between_cons h

theorem used_of_head? {e : VringUsedElem} (h : (vr.used last).head? = some e) :
    vr.used last = e :: vr.used (last + 1) := by
  have hne : last ≠ vr.usedIdx := by
    rintro rfl
    rw [used, between_self] at h
    cases h
  rw [used_cons hne, List.head?_cons, Option.some_inj] at h
  rw [used_cons hne, h]

theorem used_complete (h : distance last vr.usedIdx < ringSize) (e : VringUsedElem) :
    (vr.complete e).used last = vr.used last ++ [e] := by
  have hlt : distance last vr.usedIdx < 65535 := Nat.lt_trans h (by decide)
  calc (vr.complete e).used last
      = between (Function.update vr.usedRing (slot vr.usedIdx) e) last (vr.usedIdx + 1) := rfl
    _ = vr.used last ++ [e] := by
      rw [between_succ hlt, between_update h, Function.update_self]
      rfl

end Vring

end BankSel4.Network
