import Mathlib.Data.List.Range
import Mathlib.Logic.Function.Basic

/-!
# Rings of slots

A ring has `n` slots, and its producer and its consumer count their entries without end: the entry
with number `i` is in the slot `i % n`.  `ringEntries n slots lo len` are the `len` entries from the
number `lo` on, in order.

A producer that is less than `n` entries ahead of the consumer writes the slot of its next entry
without touching the entries that the consumer has not taken (`ringEntries_update_next`), and
`ringEntries_succ` and `ringEntries_cons` say what counting up does at either end.
-/

namespace BankSel4

variable {α : Type*} {n : Nat} {slots : Nat → α}

/-- The `len` entries of a ring of `n` slots from the number `lo` on. -/
def ringEntries (n : Nat) (slots : Nat → α) (lo len : Nat) : List α :=
  (List.range len).map fun k => slots ((lo + k) % n)

@[simp] theorem length_ringEntries (lo len : Nat) : (ringEntries n slots lo len).length = len := by
  rw [ringEntries, List.length_map, List.length_range]

@[simp] theorem ringEntries_zero (lo : Nat) : ringEntries n slots lo 0 = [] := rfl

/-- The producer counts up. -/
theorem ringEntries_succ (lo len : Nat) :
    ringEntries n slots lo (len + 1) = ringEntries n slots lo len ++ [slots ((lo + len) % n)] := by
  rw [ringEntries, List.range_succ, List.map_append]
  rfl

/-- The consumer counts up. -/
theorem ringEntries_cons (lo len : Nat) :
    ringEntries n slots lo (len + 1) = slots (lo % n) :: ringEntries n slots (lo + 1) len := by
  rw [ringEntries, List.range_succ_eq_map, List.map_cons, List.map_map]
  refine congrArg (_ :: ·) (List.map_congr_left fun k _ => ?_)
  rw [Function.comp_apply, Nat.succ_eq_add_one, Nat.add_assoc, Nat.add_comm 1]

/-- Only the slots of the entries matter. -/
theorem ringEntries_congr {slots' : Nat → α} {lo len : Nat}
    (h : ∀ k < len, slots' ((lo + k) % n) = slots ((lo + k) % n)) :
    ringEntries n slots' lo len = ringEntries n slots lo len :=
  List.map_congr_left fun k hk => h k (List.mem_range.mp hk)

/-- Only the slot of the first number matters. -/
theorem ringEntries_of_mod_eq {lo lo' : Nat} (h : lo % n = lo' % n) (len : Nat) :
    ringEntries n slots lo len = ringEntries n slots lo' len := by
  refine List.map_congr_left fun k _ => ?_
  rw [Nat.add_mod, h, ← Nat.add_mod]

/-- The slot of the next entry holds none of the entries before it. -/
theorem slot_ne_next {lo len k : Nat} (hlen : len < n) (hk : k < len) :
    (lo + k) % n ≠ (lo + len) % n := by
  intro h
  have hmod : (lo + len - (lo + k)) % n = 0 := Nat.sub_mod_eq_zero_of_mod_eq h.symm
  rw [Nat.add_sub_add_left, Nat.mod_eq_of_lt (by omega)] at hmod
  omega

/-- The producer fills the slot of its next entry. -/
theorem ringEntries_update_next {lo len : Nat} (hlen : len < n) (a : α) :
    ringEntries n (Function.update slots ((lo + len) % n) a) lo len = ringEntries n slots lo len :=
  ringEntries_congr fun _ hk => Function.update_of_ne (slot_ne_next hlen hk) _ _

end BankSel4
