import RunesIndexer.Lib.Fold

/-! # Programs that do not trap

    `Proc.Safe ans W R E p`: under answers that `ans` allows, the program `p` never
    traps. Where it stops at a call `W` holds of the state it has committed, when it
    returns `R` holds, and when it fails `E` holds.
-/

namespace Resumption

variable {Q : Type} {A : Q → Type} {ε π σ α β : Type}

/-- The result is no trap. -/
def Result.Safe (R : σ → α → Prop) (E : σ → ε → Prop) : Result ε π σ α → Prop
  | .ok s a => R s a
  | .err s e => E s e
  | .trap _ => False

namespace Proc

/-- No execution of the program traps. -/
def Safe (ans : (q : Q) → A q → Prop) (W : σ → Prop) (R : σ → α → Prop) (E : σ → ε → Prop) :
    Proc Q A ε π σ α → Prop
  | .ok s a => R s a
  | .err s e => E s e
  | .trap _ => False
  | .await s q k => W s ∧ ∀ a, ans q a → (k a s).Safe ans W R E

namespace Safe

variable {ans : (q : Q) → A q → Prop} {W : σ → Prop} {R : σ → α → Prop} {E : σ → ε → Prop}
  {p : Proc Q A ε π σ α}

/-- What a safe program runs to. -/
theorem runs (h : p.Safe ans W R E) {r : Result ε π σ α} (hr : Runs ans p r) : r.Safe R E := by
  induction hr with
  | ok s a => exact h
  | err s e => exact h
  | trap p => exact h
  | await ha _ ih => exact ih (h.2 _ ha)

/-- A safe program that cannot fail returns. -/
theorem returns (h : p.Safe ans W R E) (hE : ∀ s e, ¬ E s e) {f : (q : Q) → A q}
    (hf : ∀ q, ans q (f q)) : ∃ s a, Runs ans p (.ok s a) := by
  have hrun := runs_resultWith hf p
  have hsafe := h.runs hrun
  cases hresult : p.resultWith f with
  | ok s a => exact ⟨s, a, hresult ▸ hrun⟩
  | err s e =>
    rw [hresult] at hsafe
    exact absurd hsafe (hE s e)
  | trap t =>
    rw [hresult] at hsafe
    exact hsafe.elim

/-- Where a safe program stops. -/
theorem awaits (h : p.Safe ans W R E) {s : σ} (ha : Awaits ans p s) : W s := by
  induction ha with
  | here => exact h.1
  | later hans _ ih => exact ih (h.2 _ hans)

/-- A weaker claim, to whose returns the runs that lead to them may contribute. -/
theorem imp {W' : σ → Prop} {R' : σ → α → Prop} {E' : σ → ε → Prop} (h : p.Safe ans W R E)
    (hW : ∀ s, W s → W' s) (hR : ∀ s a, Runs ans p (.ok s a) → R s a → R' s a)
    (hE : ∀ s e, E s e → E' s e) : p.Safe ans W' R' E' := by
  induction p with
  | ok s a => exact hR s a (.ok s a) h
  | err s e => exact hE s e h
  | trap p => exact h
  | await s q k ih =>
    refine ⟨hW s h.1, fun a ha => ih a s (h.2 a ha) fun s' b hrun hb => ?_⟩
    exact hR s' b (.await ha hrun) hb

theorem bind {R' : σ → β → Prop} {f : α → σ → Proc Q A ε π σ β} (h : p.Safe ans W R E)
    (hf : ∀ s a, R s a → (f a s).Safe ans W R' E) : (p.bind f).Safe ans W R' E := by
  induction p with
  | ok s a => exact hf s a h
  | err s e => exact h
  | trap p => exact h
  | await s q k ih => exact ⟨h.1, fun a ha => ih a s (h.2 a ha)⟩

end Safe

end Proc

/-- Synchronous code that returns, then more. -/
theorem Async.safe_liftM_bind {ans : (q : Q) → A q → Prop} {W : σ → Prop} {R : σ → β → Prop}
    {E : σ → ε → Prop} {x : Sync ε π σ α} {f : α → Async Q A ε π σ β} {s s' : σ} {a : α}
    (hx : x.run s = .ok s' a) (hf : Proc.Safe ans W R E ((f a).run s')) :
    Proc.Safe ans W R E (((liftM x : Async Q A ε π σ α) >>= f).run s) := by
  rw [run_bind, run_liftM, hx]
  exact hf

/-- Code that computes a value, then more. -/
theorem Async.safe_except_bind {ans : (q : Q) → A q → Prop} {W : σ → Prop} {R : σ → β → Prop}
    {E : σ → ε → Prop} {x : Except π α} {f : α → Async Q A ε π σ β} {s : σ} {a : α}
    (hx : x = .ok a) (hf : Proc.Safe ans W R E ((f a).run s)) :
    Proc.Safe ans W R E (((liftM x : Async Q A ε π σ α) >>= f).run s) := by
  subst hx
  exact hf

end Resumption
