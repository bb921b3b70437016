import Mathlib.Data.Nat.Digits.Defs

/-!
# Byte strings and machine integers of C

`Str` is a block of bytes; a C string is one without NUL (`NoNul`).  `bytes` spells a string literal
as its bytes.  A C function that leaves defined behaviour ends in a `Fault`: `addInt` and
`subInt` are the `+` and `-` of two `int`s, which fault on overflow, and `sizeOfInt` is the
conversion of an `int` to `size_t`.
-/

namespace BankSel4

/-- A block of bytes. -/
abbrev Str := List UInt8

/-- The byte files and memories of bytes are filled with NUL. -/
instance instZeroByte : Zero UInt8 := ⟨0⟩

/-- The bytes of a string literal. -/
def bytes (s : String) : Str := s.toByteArray.data.toList

/-- A block of bytes that is the body of a C string. -/
def NoNul (s : Str) : Prop := (0 : UInt8) ∉ s

instance (s : Str) : Decidable (NoNul s) := inferInstanceAs (Decidable (_ ∉ _))

theorem noNul_cons {c : UInt8} {s : Str} : NoNul (c :: s) ↔ c ≠ 0 ∧ NoNul s := by
  unfold NoNul
  rw [List.mem_cons, not_or]
  exact and_congr_left fun _ => ne_comm

theorem noNul_append {s t : Str} : NoNul (s ++ t) ↔ NoNul s ∧ NoNul t := by
  unfold NoNul
  rw [List.mem_append, not_or]

/-- The ways a C function can leave the behaviour the language defines. -/
inductive Fault where
  /-- A signed sum does not fit its type. -/
  | signedOverflow
  /-- A load or a store outside its object. -/
  | outOfBounds
  deriving DecidableEq, Repr

theorem toOption_eq_some {α : Type*} {x : Except Fault α} {a : α} :
    x.toOption = some a ↔ x = .ok a := by
  cases x <;> simp [Except.toOption]

theorem except_bind_eq_ok {α β : Type} {x : Except Fault α} {f : α → Except Fault β} {b : β} :
    x >>= f = .ok b ↔ ∃ a, x = .ok a ∧ f a = .ok b := by
  cases x <;> simp [bind, Except.bind]

/-- `a + b` on `int`s. -/
def addInt (a b : Int32) : Except Fault Int32 :=
  if -2 ^ 31 ≤ a.toInt + b.toInt ∧ a.toInt + b.toInt < 2 ^ 31 then .ok (a + b)
  else .error .signedOverflow

theorem toInt_add_of_inRange {a b : Int32} (h : -2 ^ 31 ≤ a.toInt + b.toInt)
    (h' : a.toInt + b.toInt < 2 ^ 31) : (a + b).toInt = a.toInt + b.toInt := by
  rw [Int32.toInt_add, Int.bmod_def]
  omega

/-- A sum of `int`s that is defined is the sum of their values. -/
theorem addInt_eq_ok_iff {a b c : Int32} : addInt a b = .ok c ↔ c.toInt = a.toInt + b.toInt := by
  have hlo := c.le_toInt
  have hhi := c.toInt_lt
  unfold addInt
  split_ifs with h
  · have hab := toInt_add_of_inRange h.1 h.2
    rw [Except.ok.injEq, ← hab, ← Int32.toInt_inj]
    exact eq_comm
  · constructor
    · intro hc
      simp at hc
    · intro hc
      exact absurd ⟨hc ▸ hlo, hc ▸ hhi⟩ h

theorem exists_addInt_eq_ok {a b : Int32} (h : -2 ^ 31 ≤ a.toInt + b.toInt)
    (h' : a.toInt + b.toInt < 2 ^ 31) :
    ∃ c, addInt a b = .ok c ∧ c.toInt = a.toInt + b.toInt :=
  ⟨a + b, addInt_eq_ok_iff.mpr (toInt_add_of_inRange h h'), toInt_add_of_inRange h h'⟩

/-- `a - b` on `int`s. -/
def subInt (a b : Int32) : Except Fault Int32 :=
  if -2 ^ 31 ≤ a.toInt - b.toInt ∧ a.toInt - b.toInt < 2 ^ 31 then .ok (a - b)
  else .error .signedOverflow

theorem exists_subInt_eq_ok {a b : Int32} (h : -2 ^ 31 ≤ a.toInt - b.toInt)
    (h' : a.toInt - b.toInt < 2 ^ 31) :
    ∃ c, subInt a b = .ok c ∧ c.toInt = a.toInt - b.toInt := by
  refine ⟨a - b, if_pos ⟨h, h'⟩, ?_⟩
  rw [Int32.toInt_sub, Int.bmod_def]
  omega

/-- `(size_t) a`, with a 64-bit `size_t`. -/
def sizeOfInt (a : Int32) : Nat := (a.toInt % 2 ^ 64).toNat

theorem sizeOfInt_of_nonneg {a : Int32} (h : 0 ≤ a.toInt) : (sizeOfInt a : Int) = a.toInt := by
  have := a.toInt_lt
  unfold sizeOfInt
  omega

end BankSel4
