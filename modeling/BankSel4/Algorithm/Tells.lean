import Mathlib.Data.List.Basic

/-!
# Texts that tell what they are made of

`Tells P f g`: the text `f x` can be cut off from whatever follows it, and tells `g x`, for the `x`
with `P`.  Texts put one behind the other tell what each of them tells, and so a list of texts tells
the list: `Tells.map_eq`.
-/

namespace BankSel4

variable {α β γ γ' : Type*}

/-- The text `f x` ends where it ends, whatever follows, and tells `g x`. -/
def Tells (P : α → Prop) (f : α → List β) (g : α → γ) : Prop :=
  ∀ x y s t, P x → P y → f x ++ s = f y ++ t → g x = g y ∧ s = t

section Tells

variable {P P' : α → Prop} {f f' : α → List β} {g : α → γ} {g' : α → γ'}

/-- A text that is always the same tells nothing. -/
theorem tells_const (w : List β) : Tells P (fun _ => w) fun _ => () :=
  fun _ _ _ _ _ _ h => ⟨rfl, List.append_cancel_left h⟩

/-- A text behind which a letter stands that is not in it. -/
theorem tells_delimited {d : β} (h : ∀ x, P x → d ∉ f x) : Tells P (fun x => f x ++ [d]) f := by
  have hcut : ∀ u v s t : List β, d ∉ u → d ∉ v → u ++ d :: s = v ++ d :: t → u = v ∧ s = t := by
    intro u
    induction u with
    | nil =>
      rintro (_ | ⟨c, v⟩) s t - hv heq
      · exact ⟨rfl, (List.cons.inj heq).2⟩
      · exact absurd (List.cons.inj heq).1 (List.ne_of_not_mem_cons hv)
    | cons b u ih =>
      rintro (_ | ⟨c, v⟩) s t hu hv heq
      · exact absurd (List.cons.inj heq).1.symm (List.ne_of_not_mem_cons hu)
      · obtain ⟨rfl, htail⟩ := List.cons.inj heq
        obtain ⟨rfl, rfl⟩ :=
          ih v s t (List.not_mem_of_not_mem_cons hu) (List.not_mem_of_not_mem_cons hv) htail
        exact ⟨rfl, rfl⟩
  intro x y s t hx hy heq
  refine hcut (f x) (f y) s t (h x hx) (h y hy) ?_
  simpa using heq

/-- Two texts, one behind the other. -/
theorem Tells.append (h : Tells P f g) (h' : Tells P f' g') :
    Tells P (fun x => f x ++ f' x) fun x => (g x, g' x) := by
  intro x y s t hx hy heq
  rw [List.append_assoc, List.append_assoc] at heq
  obtain ⟨hg, heq⟩ := h x y _ _ hx hy heq
  obtain ⟨hg', rfl⟩ := h' x y s t hx hy heq
  exact ⟨Prod.ext hg hg', rfl⟩

/-- What is told tells something else. -/
theorem Tells.imp (h : Tells P f g) (hg : ∀ x y, P x → P y → g x = g y → g' x = g' y) :
    Tells P f g' := by
  intro x y s t hx hy heq
  obtain ⟨hxy, rfl⟩ := h x y s t hx hy heq
  exact ⟨hg x y hx hy hxy, rfl⟩

theorem Tells.mono (h : Tells P f g) (hP : ∀ x, P' x → P x) : Tells P' f g :=
  fun x y s t hx hy => h x y s t (hP x hx) (hP y hy)

theorem Tells.congr (h : Tells P f' g) (hf : ∀ x, P x → f x = f' x) : Tells P f g := by
  intro x y s t hx hy heq
  rw [hf x hx, hf y hy] at heq
  exact h x y s t hx hy heq

/-- **A list of texts tells the list.** -/
theorem Tells.map_eq (h : Tells P f g) (hne : ∀ x, f x ≠ []) {xs ys : List α}
    (hxs : ∀ x ∈ xs, P x) (hys : ∀ y ∈ ys, P y) (heq : xs.flatMap f = ys.flatMap f) :
    xs.map g = ys.map g := by
  induction xs generalizing ys with
  | nil =>
    cases ys with
    | nil => rfl
    | cons y ys => exact absurd (List.append_eq_nil_iff.mp heq.symm).1 (hne y)
  | cons x xs ih =>
    cases ys with
    | nil => exact absurd (List.append_eq_nil_iff.mp heq).1 (hne x)
    | cons y ys =>
      obtain ⟨hx, hxs⟩ := List.forall_mem_cons.mp hxs
      obtain ⟨hy, hys⟩ := List.forall_mem_cons.mp hys
      obtain ⟨hg, heq⟩ := h x y _ _ hx hy heq
      rw [List.map_cons, List.map_cons, hg, ih hxs hys heq]

end Tells

end BankSel4
