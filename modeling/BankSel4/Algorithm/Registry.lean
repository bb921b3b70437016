import Mathlib.Data.List.Induction

/-!
# Registries of bounded size

A registry keeps the entries given to it in order, up to a capacity; the bound is a field, so a
registry is never over-full.  `ofEntries` is the registry after a history of registrations: the
first `cap` of them (`entries_ofEntries`).
-/

namespace BankSel4

/-- A list of at most `cap` entries. -/
structure Registry (κ : Type*) (cap : ℕ) where
  /-- The entries, oldest first. -/
  entries : List κ
  /-- The registry is not over-full. -/
  length_le : entries.length ≤ cap

namespace Registry

variable {κ : Type*} {cap : ℕ}

/-- The registry without entries. -/
def empty : Registry κ cap := ⟨[], Nat.zero_le _⟩

/-- Add an entry, unless the registry is full. -/
def register (r : Registry κ cap) (k : κ) : Registry κ cap :=
  if h : r.entries.length < cap then ⟨r.entries ++ [k], by rw [List.length_append]; exact h⟩ else r

theorem register_of_lt {r : Registry κ cap} (h : r.entries.length < cap) (k : κ) :
    (r.register k).entries = r.entries ++ [k] := by
  rw [register, dif_pos h]

theorem register_of_le {r : Registry κ cap} (h : cap ≤ r.entries.length) (k : κ) :
    r.register k = r := dif_neg (by omega)

/-- The registry after the registrations of a list, in order. -/
def ofEntries (ks : List κ) : Registry κ cap := ks.foldl register empty

theorem ofEntries_snoc (ks : List κ) (k : κ) :
    (ofEntries (ks ++ [k]) : Registry κ cap) = (ofEntries ks).register k := by
  rw [ofEntries, List.foldl_append, List.foldl_cons, List.foldl_nil]
  rfl

/-- The first `cap` registrations are kept, the others are dropped. -/
theorem entries_ofEntries (ks : List κ) :
    (ofEntries ks : Registry κ cap).entries = ks.take cap := by
  induction ks using List.reverseRecOn with
  | nil => simp [ofEntries, empty]
  | append_singleton ks k ih =>
    rw [ofEntries_snoc]
    by_cases h : ks.length < cap
    · have hlt : (ofEntries ks : Registry κ cap).entries.length < cap := by
        rw [ih, List.length_take]
        omega
      rw [register_of_lt hlt, ih, List.take_of_length_le (Nat.le_of_lt h),
        List.take_of_length_le (by rw [List.length_append]; exact h)]
    · have hle : cap ≤ (ofEntries ks : Registry κ cap).entries.length := by
        rw [ih, List.length_take]
        omega
      rw [register_of_le hle, ih, List.take_append_of_le_length (by omega)]

end Registry

end BankSel4
