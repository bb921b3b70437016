import Mathlib.Algebra.BigOperators.Group.List.Basic
import Mathlib.Data.List.Nodup
import Mathlib.Tactic.Ring

/-!
# Accounts

A list of accounts with different names and integer balances.  `create` opens an account at 0 and
`add` posts an amount to one.  Postings keep the names apart, a creation keeps the total
(`total_create`), and a posting to an account that is there moves it by the amount (`total_add`).
-/

namespace BankSel4

/-- Accounts with different names. -/
structure Accounts (κ : Type*) where
  /-- The names and balances, oldest account first. -/
  entries : List (κ × ℤ)
  /-- No name occurs twice. -/
  nodup : (entries.map Prod.fst).Nodup

namespace Accounts

variable {κ : Type*} [DecidableEq κ]

/-- No accounts. -/
def empty : Accounts κ := ⟨[], List.nodup_nil⟩

/-- The names of the accounts. -/
def names (a : Accounts κ) : List κ := a.entries.map Prod.fst

/-- The sum of the balances. -/
def total (a : Accounts κ) : ℤ := (a.entries.map Prod.snd).sum

/-- Open an account with the balance 0, unless it exists. -/
def create (a : Accounts κ) (k : κ) : Accounts κ :=
  if h : k ∈ a.names then a
  else ⟨a.entries ++ [(k, 0)], by
    rw [List.map_append]
    exact List.nodup_append'.mpr
      ⟨a.nodup, List.nodup_singleton k, List.disjoint_singleton.mpr h⟩⟩

/-- Post an amount. -/
def add (a : Accounts κ) (k : κ) (x : ℤ) : Accounts κ :=
  ⟨a.entries.map fun e => if e.1 = k then (e.1, e.2 + x) else e, by
    rw [List.map_map]
    convert a.nodup using 2
    funext e
    dsimp only [Function.comp]
    split_ifs <;> rfl⟩

theorem mem_names_create (a : Accounts κ) (k : κ) : k ∈ (a.create k).names := by
  unfold create
  split_ifs with h
  · exact h
  · simp [names]

theorem mem_names_create_of_mem {a : Accounts κ} {k : κ} (h : k ∈ a.names) (l : κ) :
    k ∈ (a.create l).names := by
  unfold create
  split_ifs
  · exact h
  · rw [names, List.map_append]
    exact List.mem_append_left _ h

theorem create_of_mem {a : Accounts κ} {k : κ} (h : k ∈ a.names) : a.create k = a := dif_pos h

theorem names_add (a : Accounts κ) (k : κ) (x : ℤ) : (a.add k x).names = a.names := by
  rw [names, add, List.map_map, names]
  congr 1
  funext e
  dsimp only [Function.comp]
  split_ifs <;> rfl

theorem total_create (a : Accounts κ) (k : κ) : (a.create k).total = a.total := by
  unfold create
  split_ifs
  · rfl
  · simp [total]

/-- A posting to a name that occurs once moves the sum by the amount. -/
theorem sum_map_add {l : List (κ × ℤ)} {k : κ} (hnodup : (l.map Prod.fst).Nodup)
    (hk : k ∈ l.map Prod.fst) (x : ℤ) :
    ((l.map fun e => if e.1 = k then (e.1, e.2 + x) else e).map Prod.snd).sum =
      (l.map Prod.snd).sum + x := by
  induction l with
  | nil => simp at hk
  | cons e l ih =>
    rw [List.map_cons, List.nodup_cons] at hnodup
    obtain ⟨he, hl⟩ := hnodup
    by_cases hek : e.1 = k
    -- the name is the first one, and does not come again
    · have hrest : (l.map fun e => if e.1 = k then (e.1, e.2 + x) else e) = l := by
        refine (List.map_congr_left fun e' he' => if_neg ?_).trans (List.map_id l)
        rintro rfl
        exact he (hek ▸ List.mem_map_of_mem he')
      simp only [List.map_cons, List.sum_cons, if_pos hek, hrest]
      ring
    · have hmem : k ∈ l.map Prod.fst := by
        rw [List.map_cons, List.mem_cons] at hk
        exact hk.resolve_left (Ne.symm hek)
      simp only [List.map_cons, List.sum_cons, if_neg hek, ih hl hmem]
      ring

theorem total_add {a : Accounts κ} {k : κ} (h : k ∈ a.names) (x : ℤ) :
    (a.add k x).total = a.total + x := sum_map_add a.nodup h x

end Accounts

end BankSel4
