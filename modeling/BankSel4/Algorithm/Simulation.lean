import BankSel4.Algorithm.Run

/-!
# Simulations

`step` is simulated by `step'` along a relation `R` of their states when each step of the one is
matched by some steps of the other (`Simulates`).  The steps may rely on a guard, and the matching
steps meet one.  `Simulates.exists_run` lifts this to runs.
-/

namespace BankSel4

variable {σ α τ β : Type*}

/-- Some steps of `step'` that meet the guard `Q` lead from `t` to a state that stands for `s`. -/
def Matched (step' : τ → β → Option τ) (Q : τ → β → Prop) (R : σ → τ → Prop) (s : σ) (t : τ) :
    Prop :=
  ∃ l t', EveryStep step' (fun _ => Q) t l ∧ runSteps step' t l = some t' ∧ R s t'

/-- Each step of `step` that meets the guard `P` is matched. -/
def Simulates (step : σ → α → Option σ) (step' : τ → β → Option τ) (P : σ → α → Prop)
    (Q : τ → β → Prop) (R : σ → τ → Prop) : Prop :=
  ∀ s t a s', R s t → P s a → step s a = some s' → Matched step' Q R s' t

section Simulates

variable {step : σ → α → Option σ} {step' : τ → β → Option τ} {P : σ → α → Prop}
  {Q : τ → β → Prop} {R : σ → τ → Prop}

/-- A step in which the other side rests. -/
theorem Matched.rest {s : σ} {t : τ} (h : R s t) : Matched step' Q R s t :=
  ⟨[], t, everyStep_nil t, rfl, h⟩

/-- A step in which the other side takes one. -/
theorem Matched.move {s : σ} {t t' : τ} {b : β} (hQ : Q t b) (hb : step' t b = some t')
    (h : R s t') : Matched step' Q R s t := by
  refine ⟨[b], t', everyStep_cons_iff.mpr ⟨hQ, fun u _ => everyStep_nil u⟩, ?_, h⟩
  rw [runSteps_cons, hb]
  rfl

/-- **A run is matched by a run.** -/
theorem Simulates.exists_run (h : Simulates step step' P Q R) {s s' : σ} {t : τ} (h0 : R s t)
    {l : List α} (hP : EveryStep step (fun _ => P) s l) (hrun : runSteps step s l = some s') :
    Matched step' Q R s' t := by
  induction l generalizing s t with
  | nil => exact .rest (Option.some.inj hrun ▸ h0)
  | cons a l ih =>
    obtain ⟨s₁, hs₁, hrest⟩ := Option.bind_eq_some_iff.mp hrun
    obtain ⟨ha, hl⟩ := everyStep_cons_iff.mp hP
    obtain ⟨l₁, t₁, hQ₁, hrun₁, hR₁⟩ := h s t a s₁ h0 ha hs₁
    obtain ⟨l₂, t₂, hQ₂, hrun₂, hR₂⟩ := ih hR₁ (hl s₁ hs₁) hrest
    refine ⟨l₁ ++ l₂, t₂, everyStep_append hQ₁ hrun₁ hQ₂, ?_, hR₂⟩
    rw [runSteps_append, hrun₁]
    exact hrun₂

end Simulates

end BankSel4
