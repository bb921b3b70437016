import BankSel4.Bytes.Basic
import BankSel4.Bytes.ByteFile

/-!
# Static arrays of bytes

`Mem n` is an array of `n` bytes.  Its accesses are checked: `Mem.memcpyFrom` and `Mem.perform`
fault when a load or a store leaves the array.  A `Block` is a store that a function makes, its
address and its bytes, so that what a function writes can be spoken of apart from what the array
then holds; `strcpy` is the store of a C string.

`Mem.Holds m off bs` says that the bytes `bs` lie at `off`.  `strcmpEq_of_holds` is what the
comparison of a string in memory with a C string gives when the string there ends inside the array.
-/

namespace BankSel4

/-- An array of `n` bytes. -/
def Mem (n : Nat) := Fin n → UInt8

/-- The bytes `data` stored from address `addr` on. -/
structure Block where
  /-- The first address written. -/
  addr : Int
  /-- The bytes written. -/
  data : Str
  deriving DecidableEq, Repr

/-- The block lies in `[lo, hi)`. -/
def Block.Within (w : Block) (lo hi : Int) : Prop := lo ≤ w.addr ∧ w.addr + w.data.length ≤ hi

instance (w : Block) (lo hi : Int) : Decidable (w.Within lo hi) :=
  inferInstanceAs (Decidable (_ ∧ _))

/-- `strcpy` of the C string `s` to `addr`: its bytes and the terminator. -/
def strcpy (addr : Int) (s : Str) : Block := ⟨addr, s ++ [0]⟩

@[simp] theorem strcpy_addr (addr : Int) (s : Str) : (strcpy addr s).addr = addr := rfl

@[simp] theorem strcpy_data (addr : Int) (s : Str) : (strcpy addr s).data = s ++ [0] := rfl

namespace Mem

variable {n : Nat}

/-- The array of zeros, as static storage starts. -/
def zero : Mem n := fun _ => 0

/-- The bytes of the array as a function of the address, zero outside. -/
def byte (m : Mem n) (i : Nat) : UInt8 := if h : i < n then m ⟨i, h⟩ else 0

theorem byte_of_lt (m : Mem n) {i : Nat} (h : i < n) : m.byte i = m ⟨i, h⟩ := dif_pos h

/-- The array with the bytes `bs` put at `off`. -/
def store (m : Mem n) (off : Nat) (bs : Str) : Mem n := fun i => overlay m.byte off bs i

theorem byte_store (m : Mem n) {off : Nat} {bs : Str} (h : off + bs.length ≤ n) :
    (m.store off bs).byte = overlay m.byte off bs := by
  funext i
  by_cases hi : i < n
  · rw [byte_of_lt _ hi]
    rfl
  · rw [overlay_of_not_mem (by omega), byte, dif_neg hi, byte, dif_neg hi]

/-- The bytes of the array. -/
def toList (m : Mem n) : Str := List.ofFn fun i : Fin n => m.byte i

/-- A store that covers all bytes but the last. -/
theorem toList_store {n : Nat} (m : Mem (n + 1)) {bs : Str} (h : bs.length = n) :
    (m.store 0 bs).toList = bs ++ [m.byte n] := by
  refine List.ext_getElem (by simp [toList, h]) fun i hi hi' => ?_
  simp only [toList, List.getElem_ofFn]
  rw [byte_store m (by omega)]
  by_cases hlt : i < bs.length
  · rw [overlay_of_mem (Nat.zero_le _) (by omega), List.getElem_append_left hlt, Nat.sub_zero,
      List.getD_eq_getElem _ _ hlt]
  · have hlast : i = n := by
      rw [List.length_append, List.length_singleton] at hi'
      omega
    subst hlast
    rw [overlay_of_not_mem (by omega), List.getElem_append_right (by omega), List.getElem_singleton]

/-- Make the store `w`; storing outside the array is a fault. -/
def perform (m : Mem n) (w : Block) : Except Fault (Mem n) :=
  if w.Within 0 n then .ok (m.store w.addr.toNat w.data) else .error .outOfBounds

theorem perform_of_within (m : Mem n) {w : Block} (h : w.Within 0 n) :
    m.perform w = .ok (m.store w.addr.toNat w.data) := if_pos h

/-- `memcpy` of `len` bytes from address `addr` of the array. -/
def memcpyFrom (m : Mem n) (addr : Int) (len : Nat) : Except Fault Str :=
  if 0 ≤ addr ∧ addr + len ≤ n then .ok ((List.range len).map fun k => m.byte (addr.toNat + k))
  else .error .outOfBounds

/-! ### C strings in memory -/

/-- The bytes `bs` lie at `off`. -/
def Holds (m : Mem n) (off : Nat) (bs : Str) : Prop :=
  off + bs.length ≤ n ∧ ∀ k < bs.length, m.byte (off + k) = bs.getD k 0

/-- Compare the bytes at `off` with `bs`, one by one, up to the first difference. -/
def matchAt (m : Mem n) : Nat → Str → Except Fault Bool
  | _, [] => .ok true
  | off, c :: cs =>
    if h : off < n then
      if m ⟨off, h⟩ = c then matchAt m (off + 1) cs else .ok false
    else .error .outOfBounds

/-- `strcmp(m + off, s) == 0` for a C string `s`: the comparison reads `m` up to the first byte that
differs from `s` or its terminator. -/
def strcmpEq (m : Mem n) (off : Nat) (s : Str) : Except Fault Bool := m.matchAt off (s ++ [0])

theorem Holds.head {m : Mem n} {off : Nat} {c : UInt8} {cs : Str} (h : m.Holds off (c :: cs)) :
    ∃ hlt : off < n, m ⟨off, hlt⟩ = c := by
  have hlen := h.1
  rw [List.length_cons] at hlen
  have hlt : off < n := by omega
  refine ⟨hlt, ?_⟩
  have := h.2 0 (by simp)
  rwa [Nat.add_zero, byte_of_lt m hlt] at this

theorem Holds.tail {m : Mem n} {off : Nat} {c : UInt8} {cs : Str} (h : m.Holds off (c :: cs)) :
    m.Holds (off + 1) cs := by
  have hlen := h.1
  rw [List.length_cons] at hlen
  refine ⟨by omega, fun k hk => ?_⟩
  have := h.2 (k + 1) (by simpa using hk)
  rwa [List.getD_cons_succ, show off + (k + 1) = off + 1 + k by omega] at this

/-- Comparing with the C string that lies there finds equality, with any other a difference, and
neither reads past the terminator. -/
theorem strcmpEq_of_holds {m : Mem n} {off : Nat} {s t : Str} (h : m.Holds off (s ++ [0]))
    (hs : NoNul s) (ht : NoNul t) : m.strcmpEq off t = .ok (decide (s = t)) := by
  unfold strcmpEq
  -- on the string in memory: the comparison goes on as long as the bytes agree
  induction s generalizing off t with
  | nil =>
    obtain ⟨hlt, hc⟩ := h.head
    cases t with
    | nil => simp [matchAt, hlt, hc]
    | cons d t =>
      have hd : (0 : UInt8) ≠ d := (noNul_cons.mp ht).1.symm
      simp [matchAt, hlt, hc, hd]
  | cons c s ih =>
    obtain ⟨hlt, hc⟩ := h.head
    obtain ⟨hc0, hs'⟩ := noNul_cons.mp hs
    cases t with
    | nil => simp [matchAt, hlt, hc, hc0]
    | cons d t =>
      by_cases hcd : c = d
      · subst hcd
        rw [List.cons_append, matchAt, dif_pos hlt, if_pos hc, ih h.tail hs' (noNul_cons.mp ht).2]
        simp
      · simp [matchAt, hlt, hc, hcd]

theorem holds_store (m : Mem n) {off : Nat} {bs : Str} (h : off + bs.length ≤ n) :
    (m.store off bs).Holds off bs := by
  refine ⟨h, fun k hk => ?_⟩
  rw [byte_store m h, overlay_of_mem (by omega) (by omega), Nat.add_sub_cancel_left]

/-- A store elsewhere leaves what an address holds. -/
theorem Holds.store {m : Mem n} {off off' : Nat} {bs bs' : Str} (h : m.Holds off bs)
    (h' : off' + bs'.length ≤ n) (hd : off + bs.length ≤ off' ∨ off' + bs'.length ≤ off) :
    (m.store off' bs').Holds off bs := by
  refine ⟨h.1, fun k hk => ?_⟩
  rw [byte_store m h', overlay_of_not_mem (by omega)]
  exact h.2 k hk

theorem holds_append {m : Mem n} {off : Nat} {bs bs' : Str} :
    m.Holds off (bs ++ bs') ↔ m.Holds off bs ∧ m.Holds (off + bs.length) bs' := by
  unfold Holds
  rw [List.length_append]
  constructor
  · rintro ⟨hlen, h⟩
    refine ⟨⟨by omega, fun k hk => ?_⟩, by omega, fun k hk => ?_⟩
    · rw [h k (by omega), List.getD_append _ _ _ _ hk]
    · rw [Nat.add_assoc, h _ (by omega), List.getD_append_right _ _ _ _ (by omega),
        Nat.add_sub_cancel_left]
  · rintro ⟨⟨-, h⟩, hlen, h'⟩
    refine ⟨by omega, fun k hk => ?_⟩
    by_cases hk' : k < bs.length
    · rw [h k hk', List.getD_append _ _ _ _ hk']
    · rw [List.getD_append_right _ _ _ _ (by omega), ← h' (k - bs.length) (by omega)]
      congr 1
      omega

end Mem

end BankSel4
