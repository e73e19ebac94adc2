import RunesIndexer.Lib.Fold

/-! # Simulation of resumption programs

    Two programs make the same calls in the same order, and whatever the answers are
    they end the same way: both trap alike, both fail alike in states related by
    `S`, or both return with states and values related by `R`. Where they stop their
    states are related by `S` too. What one program does under some answers the other
    then does under the same answers.

    * `Result.Sim` is for code without calls, `Proc.Sim` for code with them.
    * Both have a rule for sequencing, and `Result.Sim` has one for folds.
    * `Async.Oblivious`: code that neither reads nor writes the state.
-/

namespace Resumption

open MonadicFold

variable {Q : Type} {A : Q → Type} {ε π σ α β γ δ : Type}

/-! ### Code without calls -/

/-- The results end the same way. -/
inductive Result.Sim (S : σ → σ → Prop) (R : σ → α → σ → β → Prop) :
    Result ε π σ α → Result ε π σ β → Prop
  | ok {s s' : σ} {a : α} {b : β} (h : R s a s' b) : Result.Sim S R (.ok s a) (.ok s' b)
  | err {s s' : σ} {e : ε} (h : S s s') : Result.Sim S R (.err s e) (.err s' e)
  | trap (p : π) : Result.Sim S R (.trap p) (.trap p)

section sync

variable {S : σ → σ → Prop} {R : σ → α → σ → β → Prop} {R' : σ → γ → σ → δ → Prop}

theorem Sync.sim_bind {x : Sync ε π σ α} {y : Sync ε π σ β} {f : α → Sync ε π σ γ}
    {g : β → Sync ε π σ δ} {s s' : σ} (hx : Result.Sim S R (x.run s) (y.run s'))
    (hf : ∀ s a s' b, R s a s' b → Result.Sim S R' ((f a).run s) ((g b).run s')) :
    Result.Sim S R' ((x >>= f).run s) ((y >>= g).run s') := by
  rw [Sync.run_bind, Sync.run_bind]
  generalize x.run s = r at hx ⊢
  generalize y.run s' = r' at hx ⊢
  cases hx with
  | ok h => exact hf _ _ _ _ h
  | err h => exact .err h
  | trap p => exact .trap p

/-- Code that only computes goes on with the same value. -/
theorem Sync.sim_liftM_bind {x : Except π α} {f : α → Sync ε π σ γ} {g : α → Sync ε π σ δ}
    {s s' : σ} (hf : ∀ a, x = .ok a → Result.Sim S R' ((f a).run s) ((g a).run s')) :
    Result.Sim S R' (((liftM x : Sync ε π σ α) >>= f).run s)
      (((liftM x : Sync ε π σ α) >>= g).run s') := by
  cases x with
  | ok a => exact hf a rfl
  | error p => exact .trap p

/-- A fold of related steps. -/
theorem Sync.sim_foldlM {ι : Type} {f : α → ι → Sync ε π σ α} {g : β → ι → Sync ε π σ β}
    {l : List ι}
    (hstep : ∀ i ∈ l, ∀ s a s' b, R s a s' b → Result.Sim S R ((f a i).run s) ((g b i).run s'))
    {s s' : σ} {a : α} {b : β} (h₀ : R s a s' b) :
    Result.Sim S R ((l.foldlM f a).run s) ((l.foldlM g b).run s') := by
  induction l generalizing s s' a b with
  | nil => exact .ok h₀
  | cons i l ih =>
    rw [List.foldlM_cons, List.foldlM_cons]
    exact sim_bind (hstep i List.mem_cons_self s a s' b h₀)
      fun s a s' b h => ih (fun j hj => hstep j (List.mem_cons_of_mem _ hj)) h

/-- A loop of related steps. -/
theorem Sync.sim_forM {ι : Type} {R : σ → Unit → σ → Unit → Prop} {f g : ι → Sync ε π σ Unit}
    {l : List ι} (hstep : ∀ i ∈ l, ∀ s s', R s () s' () → Result.Sim S R ((f i).run s) ((g i).run s'))
    {s s' : σ} (h₀ : R s () s' ()) :
    Result.Sim S R ((forM l f).run s) ((forM l g).run s') := by
  induction l generalizing s s' with
  | nil => exact .ok h₀
  | cons i l ih =>
    rw [List.forM_cons, List.forM_cons]
    exact sim_bind (hstep i List.mem_cons_self s s' h₀)
      fun s _ s' _ h => ih (fun j hj => hstep j (List.mem_cons_of_mem _ hj)) h

end sync

/-! ### Code with calls -/

/-- The programs make the same calls and end the same way. -/
inductive Proc.Sim (S : σ → σ → Prop) (R : σ → α → σ → β → Prop) :
    Proc Q A ε π σ α → Proc Q A ε π σ β → Prop
  | ok {s s' : σ} {a : α} {b : β} (h : R s a s' b) : Proc.Sim S R (.ok s a) (.ok s' b)
  | err {s s' : σ} {e : ε} (h : S s s') : Proc.Sim S R (.err s e) (.err s' e)
  | trap (p : π) : Proc.Sim S R (.trap p) (.trap p)
  | await {s s' : σ} {q : Q} {k : A q → σ → Proc Q A ε π σ α}
      {k' : A q → σ → Proc Q A ε π σ β} (h : S s s')
      (hk : ∀ a, Proc.Sim S R (k a s) (k' a s')) : Proc.Sim S R (.await s q k) (.await s' q k')

namespace Proc.Sim

variable {S : σ → σ → Prop} {R : σ → α → σ → β → Prop} {R' : σ → γ → σ → δ → Prop}

theorem of_result {x : Result ε π σ α} {y : Result ε π σ β} (h : Result.Sim S R x y) :
    Proc.Sim S R (x.toProc : Proc Q A ε π σ α) y.toProc := by
  cases h with
  | ok h => exact .ok h
  | err h => exact .err h
  | trap p => exact .trap p

theorem bind {p : Proc Q A ε π σ α} {p' : Proc Q A ε π σ β} {f : α → σ → Proc Q A ε π σ γ}
    {g : β → σ → Proc Q A ε π σ δ} (h : Proc.Sim S R p p')
    (hf : ∀ s a s' b, R s a s' b → Proc.Sim S R' (f a s) (g b s')) :
    Proc.Sim S R' (p.bind f) (p'.bind g) := by
  induction h with
  | ok h => exact hf _ _ _ _ h
  | err h => exact .err h
  | trap p => exact .trap p
  | await h _ ih => exact .await h ih

theorem mono {S' : σ → σ → Prop} {R₁ : σ → α → σ → β → Prop} {p : Proc Q A ε π σ α}
    {p' : Proc Q A ε π σ β} (hS : ∀ s s', S s s' → S' s s')
    (hR : ∀ s a s' b, R s a s' b → R₁ s a s' b) (h : Proc.Sim S R p p') :
    Proc.Sim S' R₁ p p' := by
  induction h with
  | ok h => exact .ok (hR _ _ _ _ h)
  | err h => exact .err (hS _ _ h)
  | trap p => exact .trap p
  | await h _ ih => exact .await (hS _ _ h) ih

/-- A run of one program is matched by a run of the other. -/
theorem runs {ans : (q : Q) → A q → Prop} {p : Proc Q A ε π σ α} {p' : Proc Q A ε π σ β}
    (h : Proc.Sim S R p p') {r : Result ε π σ α} (hr : Runs ans p r) :
    ∃ r', Runs ans p' r' ∧ Result.Sim S R r r' := by
  induction h with
  | ok h =>
    rw [runs_ok] at hr
    exact ⟨_, .ok _ _, hr ▸ .ok h⟩
  | err h =>
    rw [runs_err] at hr
    exact ⟨_, .err _ _, hr ▸ .err h⟩
  | trap p =>
    rw [runs_trap] at hr
    exact ⟨_, .trap p, hr ▸ .trap p⟩
  | await _ _ ih =>
    obtain ⟨a, ha, hr⟩ := runs_await.mp hr
    obtain ⟨r', hr', hsim⟩ := ih a hr
    exact ⟨r', .await ha hr', hsim⟩

theorem runs_ok {ans : (q : Q) → A q → Prop} {p : Proc Q A ε π σ α} {p' : Proc Q A ε π σ β}
    (h : Proc.Sim S R p p') {s : σ} {a : α} (hr : Runs ans p (.ok s a)) :
    ∃ s' b, Runs ans p' (.ok s' b) ∧ R s a s' b := by
  obtain ⟨r', hr', hsim⟩ := h.runs hr
  cases hsim with
  | ok h => exact ⟨_, _, hr', h⟩

/-- Where one program stops the other stops. -/
theorem awaits {ans : (q : Q) → A q → Prop} {p : Proc Q A ε π σ α} {p' : Proc Q A ε π σ β}
    (h : Proc.Sim S R p p') {s : σ} (ha : Awaits ans p s) : ∃ s', Awaits ans p' s' ∧ S s s' := by
  induction h with
  | ok h => cases ha
  | err h => cases ha
  | trap p => cases ha
  | await h _ ih =>
    cases ha with
    | here => exact ⟨_, .here, h⟩
    | later hans ha =>
      obtain ⟨s', ha', hs⟩ := ih _ ha
      exact ⟨s', .later hans ha', hs⟩

end Proc.Sim

/-! ### Code that ignores the state -/

/-- From any two states the code does the same and leaves both as they are. -/
def Async.Oblivious (x : Async Q A ε π σ α) : Prop :=
  ∀ s s', Proc.Sim (fun t t' => t = s ∧ t' = s') (fun t a t' b => t = s ∧ t' = s' ∧ a = b)
    (x.run s) (x.run s')

namespace Async.Oblivious

theorem pure (a : α) : (Pure.pure a : Async Q A ε π σ α).Oblivious :=
  fun _ _ => .ok ⟨rfl, rfl, rfl⟩

theorem call (q : Q) : (Async.call q : Async Q A ε π σ (A q)).Oblivious :=
  fun _ _ => .await ⟨rfl, rfl⟩ fun _ => .ok ⟨rfl, rfl, rfl⟩

theorem fail (e : ε) : (liftM (Sync.fail e : Sync ε π σ α) : Async Q A ε π σ α).Oblivious :=
  fun _ _ => .err ⟨rfl, rfl⟩

theorem ofExcept (x : Except π α) : (liftM x : Async Q A ε π σ α).Oblivious := by
  intro s s'
  cases x with
  | ok a => exact .ok ⟨rfl, rfl, rfl⟩
  | error p => exact .trap p

theorem bind {x : Async Q A ε π σ α} {f : α → Async Q A ε π σ β} (hx : x.Oblivious)
    (hf : ∀ a, (f a).Oblivious) : (x >>= f).Oblivious := by
  intro s s'
  rw [run_bind, run_bind]
  refine (hx s s').bind fun t a t' b h => ?_
  obtain ⟨rfl, rfl, rfl⟩ := h
  exact hf a t t'

/-- Ignoring the state, code writes nothing. -/
theorem readOnly {x : Async Q A ε π σ α} (h : x.Oblivious) : x.ReadOnly where
  runs ans s r hr := by
    obtain ⟨r', -, hsim⟩ := (h s s).runs hr
    cases hsim with
    | ok h => exact h.1
    | err h => exact h.1
    | trap p => trivial
  awaits ans s s' ha := by
    obtain ⟨_, -, hs⟩ := (h s s).awaits ha
    exact hs.1

end Async.Oblivious

end Resumption
