import Mathlib.Data.List.Induction

/-!
# Runs of a partial step function

A component is a step function `step : σ → α → Option σ`: `step s a` is the state after the action
`a`, or `none` when `a` cannot be taken in `s` (it is blocked, or it has no defined behaviour).
`runSteps step s l` takes the actions of `l` in order.

`runSteps_invariant` is the induction every safety property over runs rests on: the invariant may
mention the history of actions, and each step may rely on a guard that the run is known to meet
(`EveryStep`).  `everyStep_snoc` and `EveryStep.of_append` move the guard along a run.
-/

namespace BankSel4

variable {σ α : Type*} {step : σ → α → Option σ}

/-- The state after the actions of a list, in order. -/
def runSteps (step : σ → α → Option σ) : σ → List α → Option σ
  | s, [] => some s
  | s, a :: l => (step s a).bind fun s' => runSteps step s' l

@[simp] theorem runSteps_nil (s : σ) : runSteps step s [] = some s := rfl

@[simp] theorem runSteps_cons (s : σ) (a : α) (l : List α) :
    runSteps step s (a :: l) = (step s a).bind fun s' => runSteps step s' l := rfl

theorem runSteps_append (s : σ) (l₁ l₂ : List α) :
    runSteps step s (l₁ ++ l₂) = (runSteps step s l₁).bind fun s' => runSteps step s' l₂ := by
  induction l₁ generalizing s with
  | nil => rfl
  | cons a l₁ ih =>
    rw [List.cons_append, runSteps_cons, runSteps_cons]
    cases step s a with
    | none => rfl
    | some s' => exact ih s'

/-- A run ending with the action `a` is a run followed by one step. -/
theorem runSteps_snoc_eq_some {s s' : σ} {l : List α} {a : α} :
    runSteps step s (l ++ [a]) = some s' ↔
      ∃ t, runSteps step s l = some t ∧ step t a = some s' := by
  rw [runSteps_append, Option.bind_eq_some_iff]
  refine exists_congr fun t => and_congr_right fun _ => ?_
  rw [runSteps_cons]
  cases step t a <;> simp

/-- A run that goes on with the action `a` takes it. -/
theorem exists_step_of_runSteps {s s' t : σ} {pre post : List α} {a : α}
    (h : runSteps step s (pre ++ a :: post) = some s') (ht : runSteps step s pre = some t) :
    ∃ t', step t a = some t' := by
  rw [runSteps_append, ht, Option.bind_some, runSteps_cons] at h
  obtain ⟨t', ht', -⟩ := Option.bind_eq_some_iff.mp h
  exact ⟨t', ht'⟩

/-! ### Guards along a run -/

/-- `P` holds at every step of the run of `l` from `s`: of the actions before it, the state it is
taken in and the action itself. -/
def EveryStep (step : σ → α → Option σ) (P : List α → σ → α → Prop) (s : σ) (l : List α) : Prop :=
  ∀ pre a post t, l = pre ++ a :: post → runSteps step s pre = some t → P pre t a

theorem everyStep_nil {P : List α → σ → α → Prop} (s : σ) : EveryStep step P s [] := by
  intro pre a post t h
  simp at h

theorem EveryStep.of_append {P : List α → σ → α → Prop} {s : σ} {l₁ l₂ : List α}
    (h : EveryStep step P s (l₁ ++ l₂)) : EveryStep step P s l₁ := by
  rintro pre a post t rfl ht
  exact h pre a (post ++ l₂) t (by simp) ht

/-- A guard on the actions alone holds of all actions of a run. -/
theorem EveryStep.forall_mem {Q : α → Prop} {s s' : σ} {l : List α}
    (h : EveryStep step (fun _ _ => Q) s l) (hrun : runSteps step s l = some s') :
    ∀ a ∈ l, Q a := by
  intro a ha
  obtain ⟨pre, post, rfl⟩ := List.append_of_mem ha
  rw [runSteps_append] at hrun
  obtain ⟨t, ht, -⟩ := Option.bind_eq_some_iff.mp hrun
  exact h pre a post t rfl ht

theorem everyStep_last {P : List α → σ → α → Prop} {s t : σ} {l : List α} {a : α}
    (h : EveryStep step P s (l ++ [a])) (ht : runSteps step s l = some t) : P l t a :=
  h l a [] t rfl ht

theorem everyStep_snoc {P : List α → σ → α → Prop} {s : σ} {l : List α} {a : α}
    (h : EveryStep step P s l) (ha : ∀ t, runSteps step s l = some t → P l t a) :
    EveryStep step P s (l ++ [a]) := by
  intro pre b post t hsplit ht
  -- the step is the last one, or one of the run before it
  rcases List.eq_nil_or_concat post with rfl | ⟨post', c, rfl⟩
  · obtain ⟨rfl, hb⟩ := List.append_inj' hsplit rfl
    obtain rfl : a = b := by simpa using hb
    exact ha t ht
  · rw [List.concat_eq_append, ← List.cons_append, ← List.append_assoc] at hsplit
    obtain ⟨rfl, -⟩ := List.append_inj' hsplit rfl
    exact h pre b post' t rfl ht

/-- Actions that always meet the guard come after. -/
theorem EveryStep.append_of_forall {P : List α → σ → α → Prop} {s : σ} {l₁ l₂ : List α}
    (h₁ : EveryStep step P s l₁) (h₂ : ∀ a ∈ l₂, ∀ pre t, P pre t a) :
    EveryStep step P s (l₁ ++ l₂) := by
  induction l₂ using List.reverseRecOn with
  | nil => rwa [List.append_nil]
  | append_singleton l a ih =>
    rw [← List.append_assoc]
    refine everyStep_snoc (ih fun b hb => h₂ b (List.mem_append_left _ hb)) fun t _ => ?_
    exact h₂ a (List.mem_append_right _ (List.mem_singleton_self a)) _ t

/-- `EveryStep`, by recursion on the actions to come, from the actions before them. -/
def everyStepFrom (step : σ → α → Option σ) (P : List α → σ → α → Prop) :
    List α → σ → List α → Prop
  | _, _, [] => True
  | pre, s, a :: l => P pre s a ∧ ∀ s' ∈ step s a, everyStepFrom step P (pre ++ [a]) s' l

instance decidableEveryStepFrom (step : σ → α → Option σ) (P : List α → σ → α → Prop)
    [∀ pre s a, Decidable (P pre s a)] :
    (pre : List α) → (s : σ) → (l : List α) → Decidable (everyStepFrom step P pre s l)
  | _, _, [] => inferInstanceAs (Decidable True)
  | pre, s, a :: l => by
    have : ∀ s', Decidable (everyStepFrom step P (pre ++ [a]) s' l) :=
      fun s' => decidableEveryStepFrom step P (pre ++ [a]) s' l
    exact inferInstanceAs (Decidable (_ ∧ ∀ s' ∈ step s a, _))

theorem everyStepFrom_iff {P : List α → σ → α → Prop} {l₀ : List α} {s : σ} {l : List α} :
    everyStepFrom step P l₀ s l ↔
      ∀ pre a post t, l = pre ++ a :: post → runSteps step s pre = some t → P (l₀ ++ pre) t a := by
  induction l generalizing l₀ s with
  | nil => simp [everyStepFrom]
  | cons b l ih =>
    rw [everyStepFrom]
    simp only [ih]
    constructor
    · rintro ⟨hb, hl⟩ pre a post t hsplit ht
      cases pre with
      | nil =>
        obtain ⟨rfl, rfl⟩ := List.cons.inj hsplit
        obtain rfl := Option.some.inj ht
        rwa [List.append_nil]
      | cons b' pre =>
        obtain ⟨rfl, rfl⟩ := List.cons.inj hsplit
        obtain ⟨s', hs', ht'⟩ := Option.bind_eq_some_iff.mp ht
        have := hl s' hs' pre a post t rfl ht'
        rwa [List.append_assoc] at this
    · refine fun h => ⟨by simpa using h [] b l s rfl rfl, fun s' hs' pre a post t hsplit ht => ?_⟩
      have := h (b :: pre) a post t (by rw [hsplit, List.cons_append])
        (Option.bind_eq_some_iff.mpr ⟨s', hs', ht⟩)
      rwa [List.append_assoc]

instance (P : List α → σ → α → Prop) [∀ pre s a, Decidable (P pre s a)] (s : σ) (l : List α) :
    Decidable (EveryStep step P s l) :=
  decidable_of_iff (everyStepFrom step P [] s l) everyStepFrom_iff

/-! ### Invariants -/

/-- **Invariants of runs.**  An invariant of the history and the state that holds at the start and
is kept by every step meeting the guard `P` holds at the end of every run whose steps all meet
`P`. -/
theorem runSteps_invariant {P : List α → σ → α → Prop} {I : List α → σ → Prop} {s : σ}
    (h0 : I [] s)
    (hstep : ∀ pre t a t', runSteps step s pre = some t → I pre t → P pre t a →
      step t a = some t' → I (pre ++ [a]) t')
    {l : List α} {s' : σ} (hP : EveryStep step P s l) (h : runSteps step s l = some s') :
    I l s' := by
  induction l using List.reverseRecOn generalizing s' with
  | nil =>
    obtain rfl : s = s' := by simpa using h
    exact h0
  | append_singleton l a ih =>
    obtain ⟨t, ht, ha⟩ := runSteps_snoc_eq_some.mp h
    exact hstep l t a s' ht (ih hP.of_append ht) (everyStep_last hP ht) ha

/-- An invariant of the state alone, kept by every step. -/
theorem runSteps_state_invariant {I : σ → Prop} {s : σ} (h0 : I s)
    (hstep : ∀ t a t', I t → step t a = some t' → I t') {l : List α} {s' : σ}
    (h : runSteps step s l = some s') : I s' :=
  runSteps_invariant (P := fun _ _ _ => True) (I := fun _ t => I t) h0
    (fun _ t a t' _ ht _ hs => hstep t a t' ht hs) (fun _ _ _ _ _ _ => trivial) h

/-- A step function that can always move, as long as the guard holds, has a run for every list of
actions that meets the guard. -/
theorem exists_runSteps {P : List α → σ → α → Prop} {I : List α → σ → Prop} {s : σ} (h0 : I [] s)
    (hstep : ∀ pre t a, runSteps step s pre = some t → I pre t → P pre t a →
      ∃ t', step t a = some t' ∧ I (pre ++ [a]) t')
    {l : List α} (hP : EveryStep step P s l) : ∃ s', runSteps step s l = some s' ∧ I l s' := by
  induction l using List.reverseRecOn with
  | nil => exact ⟨s, rfl, h0⟩
  | append_singleton l a ih =>
    obtain ⟨t, ht, hI⟩ := ih hP.of_append
    obtain ⟨t', ha, hI'⟩ := hstep l t a ht hI (everyStep_last hP ht)
    exact ⟨t', runSteps_snoc_eq_some.mpr ⟨t, ht, ha⟩, hI'⟩

theorem everyStep_cons_iff {P : σ → α → Prop} {s : σ} {a : α} {l : List α} :
    EveryStep step (fun _ => P) s (a :: l) ↔
      P s a ∧ ∀ s', step s a = some s' → EveryStep step (fun _ => P) s' l := by
  constructor
  · refine fun h => ⟨h [] a l s rfl rfl, fun s' hs pre b post t hsplit ht => ?_⟩
    exact h (a :: pre) b post t (by rw [hsplit, List.cons_append])
      (Option.bind_eq_some_iff.mpr ⟨s', hs, ht⟩)
  · rintro ⟨ha, hl⟩ pre b post t hsplit ht
    cases pre with
    | nil =>
      obtain ⟨rfl, rfl⟩ := List.cons.inj hsplit
      rwa [← Option.some.inj ht]
    | cons b' pre =>
      obtain ⟨rfl, rfl⟩ := List.cons.inj hsplit
      obtain ⟨s', hs, ht'⟩ := Option.bind_eq_some_iff.mp ht
      exact hl s' hs pre b post t rfl ht'

/-- A run that meets a guard goes on with one that does. -/
theorem everyStep_append {P : σ → α → Prop} {s t : σ} {l₁ l₂ : List α}
    (h₁ : EveryStep step (fun _ => P) s l₁) (ht : runSteps step s l₁ = some t)
    (h₂ : EveryStep step (fun _ => P) t l₂) : EveryStep step (fun _ => P) s (l₁ ++ l₂) := by
  induction l₁ generalizing s with
  | nil =>
    obtain rfl := Option.some.inj ht
    exact h₂
  | cons a l₁ ih =>
    obtain ⟨s₁, hs₁, hrest⟩ := Option.bind_eq_some_iff.mp ht
    obtain ⟨ha, hl₁⟩ := everyStep_cons_iff.mp h₁
    refine everyStep_cons_iff.mpr ⟨ha, fun s' hs' => ?_⟩
    obtain rfl := Option.some.inj (hs₁.symm.trans hs')
    exact ih (hl₁ s₁ hs₁) hrest

/-- Two guards that agree as long as an invariant holds, which they keep, agree along runs. -/
theorem everyStep_congr {P Q : σ → α → Prop} {I : σ → Prop} {s s' : σ} {l : List α} (h0 : I s)
    (hPQ : ∀ t a t', I t → step t a = some t' → (P t a ↔ Q t a))
    (hstep : ∀ t a t', I t → Q t a → step t a = some t' → I t')
    (hrun : runSteps step s l = some s') :
    EveryStep step (fun _ => P) s l ↔ EveryStep step (fun _ => Q) s l := by
  induction l generalizing s with
  | nil => exact iff_of_true (everyStep_nil s) (everyStep_nil s)
  | cons a l ih =>
    obtain ⟨t, ht, hrun'⟩ := Option.bind_eq_some_iff.mp hrun
    rw [everyStep_cons_iff, everyStep_cons_iff, hPQ s a t h0 ht]
    refine and_congr_right fun hQ => forall₂_congr fun t' ht' => ?_
    obtain rfl := Option.some.inj (ht.symm.trans ht')
    exact ih (hstep s a t h0 hQ ht) hrun'

/-! ### Components that reply -/

variable {ρ : Type*}

/-- The step function of a component that replies to each action, with the log of the actions taken
so far and their replies kept beside the state. -/
def withLog (step : σ → α → Option (σ × ρ)) (p : σ × List (α × ρ)) (a : α) :
    Option (σ × List (α × ρ)) :=
  (step p.1 a).map fun r => (r.1, p.2 ++ [(a, r.2)])

theorem withLog_eq_some {step : σ → α → Option (σ × ρ)} {p q : σ × List (α × ρ)} {a : α} :
    withLog step p a = some q ↔ ∃ r, step p.1 a = some (q.1, r) ∧ q.2 = p.2 ++ [(a, r)] := by
  obtain ⟨s', log⟩ := q
  rw [withLog, Option.map_eq_some_iff]
  constructor
  · rintro ⟨⟨t, r⟩, hr, heq⟩
    obtain ⟨rfl, rfl⟩ := Prod.mk.inj heq
    exact ⟨r, hr, rfl⟩
  · rintro ⟨r, hr, hlog⟩
    exact ⟨(s', r), hr, Prod.ext rfl hlog.symm⟩

theorem withLog_of_step {step : σ → α → Option (σ × ρ)} {p : σ × List (α × ρ)} {a : α} {s' : σ}
    {r : ρ} (h : step p.1 a = some (s', r)) :
    withLog step p a = some (s', p.2 ++ [(a, r)]) :=
  withLog_eq_some.mpr ⟨r, h, rfl⟩

/-- The log of a run holds its actions. -/
theorem map_fst_log {step : σ → α → Option (σ × ρ)} {p q : σ × List (α × ρ)} {l : List α}
    (h : runSteps (withLog step) p l = some q) : q.2.map Prod.fst = p.2.map Prod.fst ++ l := by
  induction l generalizing p with
  | nil => rw [← Option.some.inj h, List.append_nil]
  | cons a l ih =>
    obtain ⟨p', hp', hrun⟩ := Option.bind_eq_some_iff.mp h
    obtain ⟨r, -, hlog⟩ := withLog_eq_some.mp hp'
    rw [ih hrun, hlog, List.map_append, List.append_assoc]
    rfl

end BankSel4
