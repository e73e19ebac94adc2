import RunesIndexer.Lib.Simulation

/-! # Executions that stop short of a return

    An execution stops at a call or ends with an error; in both cases it leaves the
    state it has committed so far. `Proc.Stops` is for both, with a rule for
    sequencing.

    * `Sync.ErrorFree`: code without an error path, in which nothing can stop.
    * `Async.FailsOn`: code that hands the error of an answer on, so that its
      returns only depend on the answers that are no errors.
-/

namespace Resumption

open MonadicFold

variable {Q : Type} {A : Q → Type} {ε π σ α β : Type}

/-! ### Stops -/

/-- Where an execution is when it has not returned. -/
inductive Stop (ε σ : Type) where
  /-- It waits for the answer to a call. -/
  | waiting (s : σ)
  /-- It has failed. -/
  | failed (s : σ) (e : ε)

/-- What has been committed. -/
def Stop.state : Stop ε σ → σ
  | .waiting s => s
  | .failed s _ => s

namespace Proc

variable {ans : (q : Q) → A q → Prop}

/-- An execution of `p` stops at `x`. -/
def Stops (ans : (q : Q) → A q → Prop) (p : Proc Q A ε π σ α) : Stop ε σ → Prop
  | .waiting s => Awaits ans p s
  | .failed s e => Runs ans p (.err s e)

/-- A sequence stops in its first part, or in its second after the first returned. -/
theorem stops_bind {p : Proc Q A ε π σ α} {f : α → σ → Proc Q A ε π σ β} {x : Stop ε σ} :
    Stops ans (p.bind f) x ↔
      Stops ans p x ∨ ∃ s₁ a, Runs ans p (.ok s₁ a) ∧ Stops ans (f a s₁) x := by
  cases x with
  | waiting s => exact awaits_bind
  | failed s e => exact runs_bind_err

/-- Programs that keep step keep what each of them has at its stops and at its end. -/
theorem Sim.strengthen {S : σ → σ → Prop} {R : σ → α → σ → β → Prop} {P P' : σ → Prop}
    {E : σ → α → Prop} {E' : σ → β → Prop} {p : Proc Q A ε π σ α} {p' : Proc Q A ε π σ β}
    (h : Proc.Sim S R p p')
    (hstop : ∀ x, Stops (fun _ _ => True) p x → P x.state)
    (hend : ∀ s a, Runs (fun _ _ => True) p (.ok s a) → E s a)
    (hstop' : ∀ x, Stops (fun _ _ => True) p' x → P' x.state)
    (hend' : ∀ s b, Runs (fun _ _ => True) p' (.ok s b) → E' s b) :
    Proc.Sim (fun s s' => S s s' ∧ P s ∧ P' s') (fun s a s' b => R s a s' b ∧ E s a ∧ E' s' b)
      p p' := by
  induction h with
  | ok h => exact .ok ⟨h, hend _ _ (.ok _ _), hend' _ _ (.ok _ _)⟩
  | @err s s' e h =>
    exact .err ⟨h, hstop (.failed s e) (.err s e), hstop' (.failed s' e) (.err s' e)⟩
  | trap p => exact .trap p
  | @await s s' q k k' h _ ih =>
    refine .await ⟨h, hstop (.waiting s) .here, hstop' (.waiting s') .here⟩ fun a => ?_
    -- the rest stops and ends where the whole does
    refine ih a (fun x hx => hstop x ?_) (fun s b hb => hend s b (.await trivial hb))
      (fun x hx => hstop' x ?_) (fun s b hb => hend' s b (.await trivial hb))
    · cases x with
      | waiting t => exact .later trivial hx
      | failed t e => exact Runs.await trivial hx
    · cases x with
      | waiting t => exact .later trivial hx
      | failed t e => exact Runs.await trivial hx

theorem not_stops_ok {s : σ} {a : α} {x : Stop ε σ} :
    ¬ Stops ans (.ok s a : Proc Q A ε π σ α) x := by
  intro h
  cases x with
  | waiting s' => exact nomatch h
  | failed s' e => exact nomatch h

end Proc

namespace Async

variable {ans : (q : Q) → A q → Prop}

theorem stops_bind {x : Async Q A ε π σ α} {f : α → Async Q A ε π σ β} {s : σ} {y : Stop ε σ} :
    Proc.Stops ans ((x >>= f).run s) y ↔
      Proc.Stops ans (x.run s) y ∨
      ∃ s₁ a, Proc.Runs ans (x.run s) (.ok s₁ a) ∧ Proc.Stops ans ((f a).run s₁) y :=
  Proc.stops_bind

/-- Read-only code stops where it started. -/
theorem ReadOnly.stops {x : Async Q A ε π σ α} (h : x.ReadOnly) {s : σ} {y : Stop ε σ}
    (hy : Proc.Stops ans (x.run s) y) : y.state = s := by
  cases y with
  | waiting s' => exact h.awaits ans s s' hy
  | failed s' e => exact h.err hy

end Async

/-! ### Code without an error path -/

/-- No state makes the code return an error. -/
def Sync.ErrorFree (x : Sync ε π σ α) : Prop := ∀ s s' e, x.run s ≠ .err s' e

namespace Sync.ErrorFree

theorem pure (a : α) : (Pure.pure a : Sync ε π σ α).ErrorFree :=
  fun _ _ _ h => by cases h

theorem gets (f : σ → α) : (Sync.gets f : Sync ε π σ α).ErrorFree :=
  fun _ _ _ h => by cases h

theorem modify (f : σ → σ) : (Sync.modify f : Sync ε π σ Unit).ErrorFree :=
  fun _ _ _ h => by cases h

theorem ofExcept (x : Except π α) : (liftM x : Sync ε π σ α).ErrorFree := by
  intro s s' e h
  cases x <;> cases h

theorem bind {x : Sync ε π σ α} {f : α → Sync ε π σ β} (hx : x.ErrorFree)
    (hf : ∀ a, (f a).ErrorFree) : (x >>= f).ErrorFree := by
  intro s s' e h
  rw [Sync.run_bind] at h
  cases hrun : x.run s with
  | ok s₁ a =>
    rw [hrun] at h
    exact hf a s₁ s' e h
  | err s₁ e₁ => exact hx s s₁ e₁ hrun
  | trap p =>
    rw [hrun] at h
    cases h

theorem foldlM {f : β → α → Sync ε π σ β} (hf : ∀ b a, (f b a).ErrorFree) (l : List α) (b : β) :
    (l.foldlM f b).ErrorFree := by
  induction l generalizing b with
  | nil => exact .pure b
  | cons a l ih => exact .bind (hf b a) ih

theorem forM {f : α → Sync ε π σ Unit} (hf : ∀ a, (f a).ErrorFree) (l : List α) :
    (l.forM f).ErrorFree := by
  induction l with
  | nil => exact .pure ()
  | cons a l ih =>
    show (f a >>= fun _ => l.forM f).ErrorFree
    exact .bind (hf a) fun _ => ih

theorem not_stops {x : Sync ε π σ α} (h : x.ErrorFree) {ans : (q : Q) → A q → Prop} {s : σ}
    {y : Stop ε σ} : ¬ Proc.Stops ans ((liftM x : Async Q A ε π σ α).run s) y := by
  intro hy
  cases y with
  | waiting s' => exact Proc.awaits_toProc hy
  | failed s' e => exact h s s' e (Async.runs_liftM.mp hy)

end Sync.ErrorFree

/-- A fold that keeps `P` has no error when its steps from states with `P` have none. -/
theorem Sync.foldlM_ne_err {f : β → α → Sync ε π σ β} {l : List α} {P : β → σ → Prop}
    (hstep : ∀ a ∈ l, ∀ b s b' s', P b s → (f b a).run s = .ok s' b' → P b' s')
    (herr : ∀ a ∈ l, ∀ b s s' e, P b s → (f b a).run s ≠ .err s' e) {b : β} {s s' : σ} {e : ε}
    (hb : P b s) : (l.foldlM f b).run s ≠ .err s' e := by
  induction l generalizing b s with
  | nil => exact fun h => by cases h
  | cons a l ih =>
    intro h
    rw [List.foldlM_cons, Sync.run_bind] at h
    cases hrun : (f b a).run s with
    | ok s₁ c =>
      rw [hrun] at h
      refine ih (fun a' ha' => hstep a' (List.mem_cons_of_mem _ ha'))
        (fun a' ha' => herr a' (List.mem_cons_of_mem _ ha')) ?_ h
      exact hstep a List.mem_cons_self b s c s₁ hb hrun
    | err s₁ e₁ => exact herr a List.mem_cons_self b s s₁ e₁ hb hrun
    | trap p =>
      rw [hrun] at h
      cases h

/-! ### Code that hands errors on -/

/-- A bad answer ends the program with an error. -/
inductive Proc.FailsOn (bad : (q : Q) → A q → Prop) : Proc Q A ε π σ α → Prop
  | ok (s : σ) (a : α) : FailsOn bad (.ok s a)
  | err (s : σ) (e : ε) : FailsOn bad (.err s e)
  | trap (p : π) : FailsOn bad (.trap p)
  | await {s : σ} {q : Q} {k : A q → σ → Proc Q A ε π σ α}
      (hbad : ∀ a, bad q a → ∃ s' e, k a s = .err s' e) (hk : ∀ a, FailsOn bad (k a s)) :
      FailsOn bad (.await s q k)

namespace Proc.FailsOn

variable {bad : (q : Q) → A q → Prop} {ans ans' : (q : Q) → A q → Prop}

/-- A return got no bad answer, so it is also a return under the others alone. -/
theorem runs_ok {p : Proc Q A ε π σ α} (h : FailsOn bad p)
    (hans : ∀ q a, ans q a → ans' q a ∨ bad q a) {s : σ} {a : α} (hr : Runs ans p (.ok s a)) :
    Runs ans' p (.ok s a) := by
  induction h with
  | ok s' a' => exact Proc.runs_ok.mpr (Proc.runs_ok.mp hr)
  | err s' e => cases hr
  | trap p => cases hr
  | await hbad _ ih =>
    obtain ⟨b, hb, hr⟩ := runs_await.mp hr
    rcases hans _ b hb with hb' | hb'
    · exact .await hb' (ih b hr)
    · obtain ⟨s', e, hk⟩ := hbad b hb'
      rw [hk] at hr
      cases hr

theorem bind {p : Proc Q A ε π σ α} {f : α → σ → Proc Q A ε π σ β} (h : FailsOn bad p)
    (hf : ∀ a s, FailsOn bad (f a s)) : FailsOn bad (p.bind f) := by
  induction h with
  | ok s a => exact hf a s
  | err s e => exact .err s e
  | trap p => exact .trap p
  | await hbad _ ih =>
    refine .await (fun a ha => ?_) ih
    obtain ⟨s', e, hk⟩ := hbad a ha
    exact ⟨s', e, by rw [hk]; rfl⟩

theorem toProc (r : Result ε π σ α) : FailsOn bad (r.toProc : Proc Q A ε π σ α) := by
  cases r with
  | ok s a => exact .ok s a
  | err s e => exact .err s e
  | trap p => exact .trap p

end Proc.FailsOn

/-- A bad answer ends the code with an error, in every state. -/
def Async.FailsOn (bad : (q : Q) → A q → Prop) (x : Async Q A ε π σ α) : Prop :=
  ∀ s, Proc.FailsOn bad (x.run s)

namespace Async.FailsOn

variable {bad : (q : Q) → A q → Prop}

theorem pure (a : α) : (Pure.pure a : Async Q A ε π σ α).FailsOn bad := fun s => .ok s a

theorem lift (x : Sync ε π σ α) : (liftM x : Async Q A ε π σ α).FailsOn bad :=
  fun s => .toProc (x.run s)

theorem ofExcept (x : Except π α) : (liftM x : Async Q A ε π σ α).FailsOn bad :=
  fun s => .toProc ((Sync.ofExcept x).run s)

theorem bind {x : Async Q A ε π σ α} {f : α → Async Q A ε π σ β} (hx : x.FailsOn bad)
    (hf : ∀ a, (f a).FailsOn bad) : (x >>= f).FailsOn bad :=
  fun s => (hx s).bind fun a s' => hf a s'

end Async.FailsOn

end Resumption
