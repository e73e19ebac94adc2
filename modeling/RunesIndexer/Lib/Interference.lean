import RunesIndexer.Lib.Interruption
import RunesIndexer.Lib.Simulation

/-! # Interference

    While a program waits for an answer, other segments may change the state. A relation
    `R` says what they may change.

    * `Proc.InStep R p p'`: the programs make the same calls and end the same way, in
      related states, although each may be resumed in any state related to its own.
    * `Sync.Respects`, `Async.Respects`: code that does not depend on what `R` may change.
    * `Proc.Follows R ans p q`: what is left of a disturbed execution is `q`, and an
      undisturbed execution of `p` is in step with it. So a disturbed execution that ends
      has an undisturbed one that ends the same way.
-/

namespace Resumption

variable {Q : Type} {A : Q → Type} {ε π σ α β : Type} {R : σ → σ → Prop}

/-- The programs stay in step, whatever related states they are resumed in. -/
inductive Proc.InStep (R : σ → σ → Prop) : Proc Q A ε π σ α → Proc Q A ε π σ α → Prop
  | ok {s s' : σ} {a : α} (h : R s s') : Proc.InStep R (.ok s a) (.ok s' a)
  | err {s s' : σ} {e : ε} (h : R s s') : Proc.InStep R (.err s e) (.err s' e)
  | trap (p : π) : Proc.InStep R (.trap p) (.trap p)
  | await {s s' : σ} {q : Q} {k k' : A q → σ → Proc Q A ε π σ α} (h : R s s')
      (hk : ∀ a t t', R t t' → Proc.InStep R (k a t) (k' a t')) :
      Proc.InStep R (.await s q k) (.await s' q k')

/-- Related states and equal values. -/
def RelEq (R : σ → σ → Prop) (s : σ) (a : α) (s' : σ) (a' : α) : Prop := R s s' ∧ a = a'

/-- From related states the code ends the same way. -/
def Sync.Respects (R : σ → σ → Prop) (x : Sync ε π σ α) : Prop :=
  ∀ s s', R s s' → Result.Sim R (RelEq R) (x.run s) (x.run s')

/-- From related states the code stays in step with itself. -/
def Async.Respects (R : σ → σ → Prop) (x : Async Q A ε π σ α) : Prop :=
  ∀ s s', R s s' → Proc.InStep R (x.run s) (x.run s')

/-! ### Code without calls -/

namespace Sync.Respects

theorem pure (a : α) : (Pure.pure a : Sync ε π σ α).Respects R := by
  intro s s' hs
  exact .ok ⟨hs, rfl⟩

theorem bind {x : Sync ε π σ α} {f : α → Sync ε π σ β} (hx : x.Respects R)
    (hf : ∀ a, (f a).Respects R) : (x >>= f).Respects R := by
  intro s s' hs
  apply Sync.sim_bind (hx s s' hs)
  intro t a t' b h
  obtain ⟨ht, rfl⟩ := h
  exact hf a t t' ht

theorem gets {f : σ → α} (h : ∀ s s', R s s' → f s = f s') :
    (Sync.gets f : Sync ε π σ α).Respects R := by
  intro s s' hs
  exact .ok ⟨hs, h s s' hs⟩

theorem modify {f : σ → σ} (h : ∀ s s', R s s' → R (f s) (f s')) :
    (Sync.modify f : Sync ε π σ Unit).Respects R := by
  intro s s' hs
  exact .ok ⟨h s s' hs, rfl⟩

theorem fail (e : ε) : (Sync.fail e : Sync ε π σ α).Respects R := by
  intro s s' hs
  exact .err hs

theorem ofExcept (x : Except π α) : (liftM x : Sync ε π σ α).Respects R := by
  intro s s' hs
  cases x with
  | ok a => exact .ok ⟨hs, rfl⟩
  | error p => exact .trap p

theorem foldlM {f : β → α → Sync ε π σ β} (hf : ∀ b a, (f b a).Respects R) (l : List α) (b : β) :
    (l.foldlM f b).Respects R := by
  induction l generalizing b with
  | nil => exact .pure b
  | cons a l ih =>
    rw [List.foldlM_cons]
    exact .bind (hf b a) fun c => ih c

theorem forM {f : α → Sync ε π σ Unit} (hf : ∀ a, (f a).Respects R) (l : List α) :
    (l.forM f).Respects R := by
  induction l with
  | nil => exact .pure ()
  | cons a l ih =>
    show (f a >>= fun _ => l.forM f).Respects R
    exact .bind (hf a) fun _ => ih

/-- A return from one state is matched from a related one. -/
theorem ok {x : Sync ε π σ α} (h : x.Respects R) {s s' t : σ} {a : α} (hs : R s s')
    (hrun : x.run s = .ok t a) : ∃ t', x.run s' = .ok t' a ∧ R t t' := by
  have hsim := h s s' hs
  rw [hrun] at hsim
  generalize hr : x.run s' = r at hsim
  cases hsim with
  | ok h =>
    obtain ⟨ht, rfl⟩ := h
    exact ⟨_, rfl, ht⟩

end Sync.Respects

/-! ### Programs -/

namespace Proc.InStep

theorem of_result {x y : Result ε π σ α} (h : Result.Sim R (RelEq R) x y) :
    Proc.InStep R (x.toProc : Proc Q A ε π σ α) y.toProc := by
  cases h with
  | ok h =>
    obtain ⟨hs, rfl⟩ := h
    exact .ok hs
  | err h => exact .err h
  | trap p => exact .trap p

theorem bind {p p' : Proc Q A ε π σ α} {f g : α → σ → Proc Q A ε π σ β} (h : InStep R p p')
    (hf : ∀ a s s', R s s' → InStep R (f a s) (g a s')) :
    InStep R (p.bind f) (p'.bind g) := by
  -- on the calls that the programs make together
  induction h with
  | ok h => exact hf _ _ _ h
  | err h => exact .err h
  | trap p => exact .trap p
  | await h _ ih => exact .await h fun a t t' ht => ih a t t' ht

theorem attempt {p p' : Proc Q A ε π σ α} (h : InStep R p p') :
    InStep R (Async.attemptProc p) (Async.attemptProc p') := by
  induction h with
  | ok h => exact .ok h
  | err h => exact .ok h
  | trap p => exact .trap p
  | await h _ ih => exact .await h fun a t t' ht => ih a t t' ht

end Proc.InStep

namespace Async.Respects

theorem pure (a : α) : (Pure.pure a : Async Q A ε π σ α).Respects R := by
  intro s s' hs
  exact .ok hs

theorem bind {x : Async Q A ε π σ α} {f : α → Async Q A ε π σ β} (hx : x.Respects R)
    (hf : ∀ a, (f a).Respects R) : (x >>= f).Respects R := by
  intro s s' hs
  rw [run_bind, run_bind]
  exact (hx s s' hs).bind fun a t t' ht => hf a t t' ht

theorem lift {x : Sync ε π σ α} (h : x.Respects R) :
    (liftM x : Async Q A ε π σ α).Respects R := by
  intro s s' hs
  exact .of_result (h s s' hs)

theorem ofExcept (x : Except π α) : (liftM x : Async Q A ε π σ α).Respects R := by
  intro s s' hs
  exact .of_result (Sync.Respects.ofExcept x s s' hs)

theorem call (q : Q) : (Async.call q : Async Q A ε π σ (A q)).Respects R := by
  intro s s' hs
  exact .await hs fun a t t' ht => .ok ht

theorem attempt {x : Async Q A ε π σ α} (h : x.Respects R) : (Async.attempt x).Respects R := by
  intro s s' hs
  exact (h s s' hs).attempt

end Async.Respects

/-! ### Disturbed executions -/

/-- What is left is `q`, and what is left of some undisturbed execution of `p` is in step
    with it. -/
def Proc.Follows (R : σ → σ → Prop) (ans : (q : Q) → A q → Prop) (p q : Proc Q A ε π σ α) : Prop :=
  ∃ q₀, InStep R q q₀ ∧ (∀ r, Runs ans q₀ r → Runs ans p r) ∧
    ∀ s, Awaits ans q₀ s → Awaits ans p s

namespace Proc.Follows

variable {ans : (q : Q) → A q → Prop} {p : Proc Q A ε π σ α} {s t : σ}

/-- At the start, from a related state. -/
theorem start {x : Async Q A ε π σ α} (h : x.Respects R) {s₀ : σ} (hs : R s s₀) :
    Follows R ans (x.run s₀) (x.run s) :=
  ⟨_, h s s₀ hs, fun _ hr => hr, fun _ ha => ha⟩

/-- The state that was published may be changed before the answer arrives. -/
theorem moved (hR : Equivalence R) {q : Q} {k : A q → σ → Proc Q A ε π σ α}
    (h : Follows R ans p (.await s q k)) (ht : R t s) : Follows R ans p (.await t q k) := by
  obtain ⟨q₀, hstep, hruns, hawaits⟩ := h
  cases hstep with
  | await hs hk => exact ⟨_, .await (hR.trans ht hs) hk, hruns, hawaits⟩

/-- An answer arrives. -/
theorem resume {q : Q} {k : A q → σ → Proc Q A ε π σ α} (h : Follows R ans p (.await s q k))
    {a : A q} (ha : ans q a) : Follows R ans p (k a s) := by
  obtain ⟨q₀, hstep, hruns, hawaits⟩ := h
  cases hstep with
  | await hs hk =>
    refine ⟨_, hk a _ _ hs, ?_, ?_⟩
    · intro r hr
      exact hruns r (.await ha hr)
    · intro s' hs'
      exact hawaits s' (.later ha hs')

/-- Where it waits, an undisturbed execution waits too. -/
theorem awaits {q : Q} {k : A q → σ → Proc Q A ε π σ α} (h : Follows R ans p (.await s q k)) :
    ∃ s', R s s' ∧ Awaits ans p s' := by
  obtain ⟨q₀, hstep, -, hawaits⟩ := h
  cases hstep with
  | await hs hk => exact ⟨_, hs, hawaits _ .here⟩

/-- When it returns, an undisturbed execution returns the same. -/
theorem ok {a : α} (h : Follows R ans p (.ok s a)) : ∃ s', R s s' ∧ Runs ans p (.ok s' a) := by
  obtain ⟨q₀, hstep, hruns, -⟩ := h
  cases hstep with
  | ok hs => exact ⟨_, hs, hruns _ (.ok _ a)⟩

/-- When it fails, an undisturbed execution fails the same way. -/
theorem err {e : ε} (h : Follows R ans p (.err s e)) : ∃ s', R s s' ∧ Runs ans p (.err s' e) := by
  obtain ⟨q₀, hstep, hruns, -⟩ := h
  cases hstep with
  | err hs => exact ⟨_, hs, hruns _ (.err _ e)⟩

end Proc.Follows

end Resumption
