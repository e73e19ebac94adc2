import Mathlib.Data.List.Basic

/-! # Advancing to a goal

    A system takes labelled steps, of which each label allows at most one. When every state
    that has reached `n` has a step to one that has reached `n + 1`, whatever its label is, any
    labels lead as far as there are labels, and what the system can reach by them is that state
    alone.
-/

namespace Convergence

variable {ι σ : Type}

/-- The steps with these labels, one after the other. -/
inductive Steps (step : ι → σ → σ → Prop) : List ι → σ → σ → Prop
  | nil (s : σ) : Steps step [] s s
  | cons {i : ι} {l : List ι} {s s₁ s₂ : σ} :
      step i s s₁ → Steps step l s₁ s₂ → Steps step (i :: l) s s₂

variable {step : ι → σ → σ → Prop}

/-- Steps that a label determines lead to one state. -/
theorem Steps.unique (hstep : ∀ i s s₁ s₂, step i s s₁ → step i s s₂ → s₁ = s₂) {l : List ι}
    {s s₁ s₂ : σ} (h₁ : Steps step l s s₁) (h₂ : Steps step l s s₂) : s₁ = s₂ := by
  induction h₁ with
  | nil s =>
    cases h₂
    rfl
  | cons h _ ih =>
    cases h₂ with
    | cons h' h₂ =>
      obtain rfl := hstep _ _ _ _ h h'
      exact ih h₂

/-- Each step reaches one more. -/
theorem Steps.progress {reached : Nat → σ → Prop}
    (hstep : ∀ n s i, reached n s → ∃ s', step i s s' ∧ reached (n + 1) s') (l : List ι) {n : Nat}
    {s : σ} (h : reached n s) : ∃ s', Steps step l s s' ∧ reached (n + l.length) s' := by
  induction l generalizing n s with
  | nil => exact ⟨s, .nil s, h⟩
  | cons i l ih =>
    obtain ⟨s₁, hstep₁, h₁⟩ := hstep n s i h
    obtain ⟨s₂, hsteps, h₂⟩ := ih h₁
    rw [List.length_cons, Nat.add_comm l.length, ← Nat.add_assoc]
    exact ⟨s₂, .cons hstep₁ hsteps, h₂⟩

/-- A state that no step leaves. -/
theorem Steps.stays {s : σ} (h : ∀ i, step i s s) (l : List ι) : Steps step l s s := by
  induction l with
  | nil => exact .nil s
  | cons i l ih => exact .cons (h i) ih

end Convergence
