import Mathlib.Tactic.Basic

/-! # Resumption programs

    A program over a committed state that runs in atomic segments between
    calls to an environment. Two levels:

    * `Sync`: code with no call in it. It maps a state to a value, an error
      that keeps the state, or a trap that has no state at all.
    * `Async`: code that may stop at a call. At each call it publishes the
      state it has committed, and it resumes with the answer and with the
      state it finds then, which other segments may have changed.

    `Proc.Runs ans p r` is the undisturbed execution of `p`: every call gets an
    answer that `ans` allows and the state is not touched in between.
    `Proc.Awaits ans p s` says that such an execution stops at a call with the
    committed state `s`. Both have one inversion rule for each constructor and
    one for sequencing, and proofs about programs use only those.
-/

namespace Resumption

variable {Q : Type} {A : Q → Type} {ε π σ α β : Type}

/-! ### Results and programs -/

/-- How a program that has no call left ends. -/
inductive Result (ε π σ α : Type) where
  /-- It returned `a` in state `s`. -/
  | ok (s : σ) (a : α)
  /-- It failed with `e`; the writes made before stay. -/
  | err (s : σ) (e : ε)
  /-- It trapped; the writes of the segment are discarded. -/
  | trap (p : π)

/-- A program in its current state. -/
inductive Proc (Q : Type) (A : Q → Type) (ε π σ α : Type) where
  | ok (s : σ) (a : α)
  | err (s : σ) (e : ε)
  | trap (p : π)
  /-- It has committed `s` and waits for the answer to `q`. -/
  | await (s : σ) (q : Q) (k : A q → σ → Proc Q A ε π σ α)

/-- Code without calls. -/
structure Sync (ε π σ α : Type) where
  run : σ → Result ε π σ α

/-- Code that may call the environment. -/
structure Async (Q : Type) (A : Q → Type) (ε π σ α : Type) where
  run : σ → Proc Q A ε π σ α

/-! ### Synchronous code -/

namespace Sync

instance : Monad (Sync ε π σ) where
  pure a := ⟨fun s => .ok s a⟩
  bind x f := ⟨fun s =>
    match x.run s with
    | .ok s' a => (f a).run s'
    | .err s' e => .err s' e
    | .trap p => .trap p⟩

theorem ext {x y : Sync ε π σ α} (h : ∀ s, x.run s = y.run s) : x = y := by
  cases x
  cases y
  exact congrArg Sync.mk (funext h)

instance : LawfulMonad (Sync ε π σ) := LawfulMonad.mk' _
  (fun x => ext fun s => by
    change (match x.run s with
      | .ok s' a => Result.ok s' a
      | .err s' e => .err s' e
      | .trap p => .trap p) = x.run s
    cases x.run s <;> rfl)
  (fun _ _ => rfl)
  (fun x f g => ext fun s => by
    simp only [bind]
    cases x.run s <;> rfl)

/-- Read from the state. -/
def gets (f : σ → α) : Sync ε π σ α := ⟨fun s => .ok s (f s)⟩

/-- Write to the state. -/
def modify (f : σ → σ) : Sync ε π σ Unit := ⟨fun s => .ok (f s) ()⟩

/-- Return early with an error. -/
def fail (e : ε) : Sync ε π σ α := ⟨fun s => .err s e⟩

/-- Code that touches no state and may only trap. -/
def ofExcept (x : Except π α) : Sync ε π σ α := ⟨fun s =>
  match x with
  | .ok a => .ok s a
  | .error p => .trap p⟩

instance : MonadLift (Except π) (Sync ε π σ) := ⟨ofExcept⟩

@[simp] theorem run_pure (a : α) (s : σ) : (pure a : Sync ε π σ α).run s = .ok s a := rfl

@[simp] theorem run_gets (f : σ → α) (s : σ) :
    (gets f : Sync ε π σ α).run s = .ok s (f s) := rfl

@[simp] theorem run_modify (f : σ → σ) (s : σ) :
    (modify f : Sync ε π σ Unit).run s = .ok (f s) () := rfl

@[simp] theorem run_fail (e : ε) (s : σ) : (fail e : Sync ε π σ α).run s = .err s e := rfl

@[simp] theorem run_liftM (x : Except π α) (s : σ) :
    (liftM x : Sync ε π σ α).run s = (ofExcept x).run s := rfl

@[simp] theorem run_ofExcept_ok (a : α) (s : σ) :
    (ofExcept (.ok a) : Sync ε π σ α).run s = .ok s a := rfl

@[simp] theorem run_ofExcept_error (p : π) (s : σ) :
    (ofExcept (.error p) : Sync ε π σ α).run s = .trap p := rfl

theorem run_bind (x : Sync ε π σ α) (f : α → Sync ε π σ β) (s : σ) :
    (x >>= f).run s = match x.run s with
      | .ok s' a => (f a).run s'
      | .err s' e => .err s' e
      | .trap p => .trap p := rfl

theorem run_bind_of_ok {x : Sync ε π σ α} {s s' : σ} {a : α} (h : x.run s = .ok s' a)
    (f : α → Sync ε π σ β) : (x >>= f).run s = (f a).run s' := by
  rw [run_bind, h]

@[simp] theorem run_gets_bind (g : σ → α) (f : α → Sync ε π σ β) (s : σ) :
    (gets g >>= f).run s = (f (g s)).run s := rfl

@[simp] theorem run_modify_bind (g : σ → σ) (f : Unit → Sync ε π σ β) (s : σ) :
    (modify g >>= f).run s = (f ()).run (g s) := rfl

theorem ofExcept_eq_ok {x : Except π α} {s s' : σ} {a : α} :
    (ofExcept x : Sync ε π σ α).run s = .ok s' a ↔ x = .ok a ∧ s' = s := by
  cases x with
  | error p => simp
  | ok b => simp [eq_comm, and_comm]

/-- Sequencing returns when both parts do. -/
theorem bind_eq_ok {x : Sync ε π σ α} {f : α → Sync ε π σ β} {s s' : σ} {b : β} :
    (x >>= f).run s = .ok s' b ↔ ∃ s₁ a, x.run s = .ok s₁ a ∧ (f a).run s₁ = .ok s' b := by
  rw [run_bind]
  cases x.run s <;> simp [and_assoc]

/-- Sequencing after code that only computes. -/
theorem liftM_bind_eq_ok {x : Except π α} {f : α → Sync ε π σ β} {s s' : σ} {b : β} :
    ((liftM x : Sync ε π σ α) >>= f).run s = .ok s' b ↔
      ∃ a, x = .ok a ∧ (f a).run s = .ok s' b := by
  rw [bind_eq_ok]
  constructor
  · rintro ⟨s₁, a, h₁, h₂⟩
    obtain ⟨hx, rfl⟩ := ofExcept_eq_ok.mp h₁
    exact ⟨a, hx, h₂⟩
  · rintro ⟨a, hx, h⟩
    exact ⟨s, a, ofExcept_eq_ok.mpr ⟨hx, rfl⟩, h⟩

end Sync

/-! ### Programs with calls -/

/-- A result is a program that has ended. -/
def Result.toProc : Result ε π σ α → Proc Q A ε π σ α
  | .ok s a => .ok s a
  | .err s e => .err s e
  | .trap p => .trap p

/-- Run `p`, then go on with `f`; an error or a trap of `p` ends both. -/
def Proc.bind : Proc Q A ε π σ α → (α → σ → Proc Q A ε π σ β) → Proc Q A ε π σ β
  | .ok s a, f => f a s
  | .err s e, _ => .err s e
  | .trap p, _ => .trap p
  | .await s q k, f => .await s q fun a s' => (k a s').bind f

theorem Proc.bind_assoc {γ : Type} (p : Proc Q A ε π σ α) (f : α → σ → Proc Q A ε π σ β)
    (g : β → σ → Proc Q A ε π σ γ) :
    (p.bind f).bind g = p.bind fun a s => (f a s).bind g := by
  induction p with
  | ok s a => rfl
  | err s e => rfl
  | trap p => rfl
  | await s q k ih => exact congrArg (await s q) (funext fun a => funext fun s' => ih a s')

namespace Async

instance : Monad (Async Q A ε π σ) where
  pure a := ⟨fun s => .ok s a⟩
  bind x f := ⟨fun s => (x.run s).bind fun a s' => (f a).run s'⟩

/-- Synchronous code as a segment. -/
def lift (x : Sync ε π σ α) : Async Q A ε π σ α := ⟨fun s => (x.run s).toProc⟩

instance : MonadLift (Sync ε π σ) (Async Q A ε π σ) := ⟨lift⟩

/-- Call the environment. -/
def call (q : Q) : Async Q A ε π σ (A q) := ⟨fun s => .await s q fun a s' => .ok s' a⟩

/-- Hand an error to the caller as a value. -/
def attemptProc : Proc Q A ε π σ α → Proc Q A ε π σ (Except ε α)
  | .ok s a => .ok s (.ok a)
  | .err s e => .ok s (.error e)
  | .trap p => .trap p
  | .await s q k => .await s q fun a s' => attemptProc (k a s')

/-- Run `x`; its error, if it has one, becomes a value. -/
def attempt (x : Async Q A ε π σ α) : Async Q A ε π σ (Except ε α) :=
  ⟨fun s => attemptProc (x.run s)⟩

@[simp] theorem run_pure (a : α) (s : σ) : (pure a : Async Q A ε π σ α).run s = .ok s a := rfl

@[simp] theorem run_bind (x : Async Q A ε π σ α) (f : α → Async Q A ε π σ β) (s : σ) :
    (x >>= f).run s = (x.run s).bind fun a s' => (f a).run s' := rfl

@[simp] theorem run_call (q : Q) (s : σ) :
    (call q : Async Q A ε π σ (A q)).run s = .await s q fun a s' => .ok s' a := rfl

@[simp] theorem run_liftM (x : Sync ε π σ α) (s : σ) :
    (liftM x : Async Q A ε π σ α).run s = (x.run s).toProc := rfl

@[simp] theorem run_liftM_except (x : Except π α) (s : σ) :
    (liftM x : Async Q A ε π σ α).run s = ((Sync.ofExcept x).run s).toProc := rfl

end Async

/-! ### Undisturbed executions -/

namespace Proc

/-- `p` runs to `r`, its calls answered as `ans` allows. -/
inductive Runs (ans : (q : Q) → A q → Prop) :
    Proc Q A ε π σ α → Result ε π σ α → Prop
  | ok (s : σ) (a : α) : Runs ans (.ok s a) (.ok s a)
  | err (s : σ) (e : ε) : Runs ans (.err s e) (.err s e)
  | trap (p : π) : Runs ans (.trap p) (.trap p)
  | await {s : σ} {q : Q} {k : A q → σ → Proc Q A ε π σ α} {a : A q} {r : Result ε π σ α} :
      ans q a → Runs ans (k a s) r → Runs ans (.await s q k) r

/-- An execution of `p` stops at a call with `s` committed. -/
inductive Awaits (ans : (q : Q) → A q → Prop) : Proc Q A ε π σ α → σ → Prop
  | here {s : σ} {q : Q} {k : A q → σ → Proc Q A ε π σ α} : Awaits ans (.await s q k) s
  | later {s s' : σ} {q : Q} {k : A q → σ → Proc Q A ε π σ α} {a : A q} :
      ans q a → Awaits ans (k a s) s' → Awaits ans (.await s q k) s'

variable {ans : (q : Q) → A q → Prop}

@[simp] theorem runs_ok {s : σ} {a : α} {r : Result ε π σ α} :
    Runs ans (.ok s a : Proc Q A ε π σ α) r ↔ r = .ok s a :=
  ⟨fun h => by cases h; rfl, fun h => h ▸ .ok s a⟩

@[simp] theorem runs_err {s : σ} {e : ε} {r : Result ε π σ α} :
    Runs ans (.err s e : Proc Q A ε π σ α) r ↔ r = .err s e :=
  ⟨fun h => by cases h; rfl, fun h => h ▸ .err s e⟩

@[simp] theorem runs_trap {p : π} {r : Result ε π σ α} :
    Runs ans (.trap p : Proc Q A ε π σ α) r ↔ r = .trap p :=
  ⟨fun h => by cases h; rfl, fun h => h ▸ .trap p⟩

theorem runs_await {s : σ} {q : Q} {k : A q → σ → Proc Q A ε π σ α} {r : Result ε π σ α} :
    Runs ans (.await s q k) r ↔ ∃ a, ans q a ∧ Runs ans (k a s) r :=
  ⟨fun h => by cases h with | await ha hr => exact ⟨_, ha, hr⟩,
   fun ⟨_, ha, hr⟩ => .await ha hr⟩

/-- A segment without calls has its one result. -/
@[simp] theorem runs_toProc {x r : Result ε π σ α} :
    Runs ans (x.toProc : Proc Q A ε π σ α) r ↔ r = x := by
  cases x <;> simp [Result.toProc]

/-- A sequence ends as its second part does after the first returned, or as the first part does. -/
theorem runs_bind {p : Proc Q A ε π σ α} {f : α → σ → Proc Q A ε π σ β} {r : Result ε π σ β} :
    Runs ans (p.bind f) r ↔
      (∃ s₁ a, Runs ans p (.ok s₁ a) ∧ Runs ans (f a s₁) r) ∨
      (∃ s₁ e, r = .err s₁ e ∧ Runs ans p (.err s₁ e)) ∨
      ∃ t, r = .trap t ∧ Runs ans p (.trap t) := by
  induction p with
  | ok s a => simp [Proc.bind, and_assoc]
  | err s e => simp [Proc.bind]
  | trap p => simp [Proc.bind]
  | await s q k ih =>
    simp only [Proc.bind, runs_await, ih]
    constructor
    · rintro ⟨a, ha, ⟨s₁, b, h₁, h₂⟩ | ⟨s₁, e, hr, h⟩ | ⟨t, hr, h⟩⟩
      · exact .inl ⟨s₁, b, ⟨a, ha, h₁⟩, h₂⟩
      · exact .inr (.inl ⟨s₁, e, hr, a, ha, h⟩)
      · exact .inr (.inr ⟨t, hr, a, ha, h⟩)
    · rintro (⟨s₁, b, ⟨a, ha, h₁⟩, h₂⟩ | ⟨s₁, e, hr, a, ha, h⟩ | ⟨t, hr, a, ha, h⟩)
      · exact ⟨a, ha, .inl ⟨s₁, b, h₁, h₂⟩⟩
      · exact ⟨a, ha, .inr (.inl ⟨s₁, e, hr, h⟩)⟩
      · exact ⟨a, ha, .inr (.inr ⟨t, hr, h⟩)⟩

/-- Sequencing returns when both parts do. -/
theorem runs_bind_ok {p : Proc Q A ε π σ α} {f : α → σ → Proc Q A ε π σ β} {s' : σ} {b : β} :
    Runs ans (p.bind f) (.ok s' b) ↔
      ∃ s₁ a, Runs ans p (.ok s₁ a) ∧ Runs ans (f a s₁) (.ok s' b) := by
  simp [runs_bind]

/-- Sequencing fails when the first part does, or the second after the first returned. -/
theorem runs_bind_err {p : Proc Q A ε π σ α} {f : α → σ → Proc Q A ε π σ β} {s' : σ} {e : ε} :
    Runs ans (p.bind f) (.err s' e) ↔
      Runs ans p (.err s' e) ∨
      ∃ s₁ a, Runs ans p (.ok s₁ a) ∧ Runs ans (f a s₁) (.err s' e) := by
  rw [runs_bind, or_comm]
  refine or_congr_left ⟨?_, fun h => .inl ⟨s', e, rfl, h⟩⟩
  rintro (⟨s₁, e₁, hr, h⟩ | ⟨t, hr, -⟩)
  · cases hr
    exact h
  · cases hr

theorem runs_bind_trap {p : Proc Q A ε π σ α} {f : α → σ → Proc Q A ε π σ β} {t : π} :
    Runs ans (p.bind f) (.trap t) ↔
      Runs ans p (.trap t) ∨
      ∃ s₁ a, Runs ans p (.ok s₁ a) ∧ Runs ans (f a s₁) (.trap t) := by
  rw [runs_bind, or_comm]
  refine or_congr_left ⟨?_, fun h => .inr ⟨t, rfl, h⟩⟩
  rintro (⟨s₁, e₁, hr, -⟩ | ⟨t₁, hr, h⟩)
  · cases hr
  · cases hr
    exact h

@[simp] theorem awaits_toProc {x : Result ε π σ α} {s : σ} :
    ¬ Awaits ans (x.toProc : Proc Q A ε π σ α) s := by
  cases x <;> exact nofun

/-- A sequence waits in its first part, or in its second after the first returned. -/
theorem awaits_bind {p : Proc Q A ε π σ α} {f : α → σ → Proc Q A ε π σ β} {s' : σ} :
    Awaits ans (p.bind f) s' ↔
      Awaits ans p s' ∨ ∃ s₁ a, Runs ans p (.ok s₁ a) ∧ Awaits ans (f a s₁) s' := by
  induction p with
  | ok s a =>
    simp only [Proc.bind, runs_ok, Result.ok.injEq]
    constructor
    · exact fun h => .inr ⟨s, a, ⟨rfl, rfl⟩, h⟩
    -- a program that has ended does not wait itself
    · rintro (h | ⟨_, _, ⟨rfl, rfl⟩, h⟩)
      · cases h
      · exact h
  | err s e =>
    constructor
    · exact nofun
    · rintro (h | ⟨_, _, h, _⟩) <;> cases h
  | trap p =>
    constructor
    · exact nofun
    · rintro (h | ⟨_, _, h, _⟩) <;> cases h
  | await s q k ih =>
    constructor
    · intro h
      cases h with
      | here => exact .inl .here
      | later ha h =>
        rcases (ih _ _).mp h with h | ⟨s₁, b, h₁, h₂⟩
        · exact .inl (.later ha h)
        · exact .inr ⟨s₁, b, .await ha h₁, h₂⟩
    · rintro (h | ⟨s₁, b, h₁, h₂⟩)
      · cases h with
        | here => exact .here
        | later ha h => exact .later ha ((ih _ _).mpr (.inl h))
      · cases h₁ with
        | await ha h₁ => exact .later ha ((ih _ _).mpr (.inr ⟨s₁, b, h₁, h₂⟩))

/-- Fewer answers allowed, fewer executions. -/
theorem Runs.mono {ans' : (q : Q) → A q → Prop} (hle : ∀ q a, ans q a → ans' q a)
    {p : Proc Q A ε π σ α} {r : Result ε π σ α} (h : Runs ans p r) : Runs ans' p r := by
  induction h with
  | ok s a => exact .ok s a
  | err s e => exact .err s e
  | trap p => exact .trap p
  | await ha _ ih => exact .await (hle _ _ ha) ih

/-- When each call has exactly one allowed answer, there is at most one result. -/
theorem Runs.unique (hans : ∀ q a b, ans q a → ans q b → a = b)
    {p : Proc Q A ε π σ α} {r r' : Result ε π σ α} (h : Runs ans p r) (h' : Runs ans p r') :
    r = r' := by
  induction h with
  | ok s a => cases h'; rfl
  | err s e => cases h'; rfl
  | trap p => cases h'; rfl
  | await ha _ ih =>
    cases h' with
    | await ha' hr' =>
      cases hans _ _ _ ha ha'
      exact ih hr'

/-- The result when `f` answers every call. -/
def resultWith (f : (q : Q) → A q) : Proc Q A ε π σ α → Result ε π σ α
  | .ok s a => .ok s a
  | .err s e => .err s e
  | .trap p => .trap p
  | .await s q k => (k (f q) s).resultWith f

/-- The process waits in a state with `P`. -/
def waits (P : σ → Bool) : Proc Q A ε π σ α → Bool
  | .await s _ _ => P s
  | _ => false

theorem awaits_of_waits {P : σ → Bool} {p : Proc Q A ε π σ α} (h : p.waits P = true) :
    ∃ s, Awaits ans p s ∧ P s = true := by
  cases p with
  | await s q k => exact ⟨s, .here, h⟩
  | ok s a => cases h
  | err s e => cases h
  | trap t => cases h

/-- Programs end: the answers of `f` lead to a result. -/
theorem runs_resultWith {f : (q : Q) → A q} (hf : ∀ q, ans q (f q)) (p : Proc Q A ε π σ α) :
    Runs ans p (p.resultWith f) := by
  induction p with
  | ok s a => exact .ok s a
  | err s e => exact .err s e
  | trap p => exact .trap p
  | await s q k ih => exact .await (hf q) (ih _ _)

end Proc

/-- The result is a return whose state and value satisfy `P`. -/
def Result.returns (P : σ → α → Bool) : Result ε π σ α → Bool
  | .ok s a => P s a
  | .err _ _ => false
  | .trap _ => false

theorem Result.returns_iff {P : σ → α → Bool} {r : Result ε π σ α} :
    r.returns P = true ↔ ∃ s a, r = .ok s a ∧ P s a = true := by
  cases r <;> simp [Result.returns, and_assoc]

/-- The result is an error whose state and value satisfy `P`. -/
def Result.fails (P : σ → ε → Bool) : Result ε π σ α → Bool
  | .ok _ _ => false
  | .err s e => P s e
  | .trap _ => false

theorem Result.fails_iff {P : σ → ε → Bool} {r : Result ε π σ α} :
    r.fails P = true ↔ ∃ s e, r = .err s e ∧ P s e = true := by
  cases r <;> simp [Result.fails, and_assoc]

/-- The result is a trap that satisfies `P`. -/
def Result.traps (P : π → Bool) : Result ε π σ α → Bool
  | .ok _ _ => false
  | .err _ _ => false
  | .trap p => P p

theorem Result.traps_iff {P : π → Bool} {r : Result ε π σ α} :
    r.traps P = true ↔ ∃ p, r = .trap p ∧ P p = true := by
  cases r <;> simp [Result.traps]

/-! ### Rules for sequenced code -/

namespace Async

variable {ans : (q : Q) → A q → Prop}

theorem runs_bind_ok {x : Async Q A ε π σ α} {f : α → Async Q A ε π σ β} {s s' : σ} {b : β} :
    Proc.Runs ans ((x >>= f).run s) (.ok s' b) ↔
      ∃ s₁ a, Proc.Runs ans (x.run s) (.ok s₁ a) ∧ Proc.Runs ans ((f a).run s₁) (.ok s' b) :=
  Proc.runs_bind_ok

theorem runs_bind_err {x : Async Q A ε π σ α} {f : α → Async Q A ε π σ β} {s s' : σ} {e : ε} :
    Proc.Runs ans ((x >>= f).run s) (.err s' e) ↔
      Proc.Runs ans (x.run s) (.err s' e) ∨
      ∃ s₁ a, Proc.Runs ans (x.run s) (.ok s₁ a) ∧ Proc.Runs ans ((f a).run s₁) (.err s' e) :=
  Proc.runs_bind_err

theorem runs_bind_trap {x : Async Q A ε π σ α} {f : α → Async Q A ε π σ β} {s : σ} {t : π} :
    Proc.Runs ans ((x >>= f).run s) (.trap t) ↔
      Proc.Runs ans (x.run s) (.trap t) ∨
      ∃ s₁ a, Proc.Runs ans (x.run s) (.ok s₁ a) ∧ Proc.Runs ans ((f a).run s₁) (.trap t) :=
  Proc.runs_bind_trap

theorem awaits_bind {x : Async Q A ε π σ α} {f : α → Async Q A ε π σ β} {s s' : σ} :
    Proc.Awaits ans ((x >>= f).run s) s' ↔
      Proc.Awaits ans (x.run s) s' ∨
      ∃ s₁ a, Proc.Runs ans (x.run s) (.ok s₁ a) ∧ Proc.Awaits ans ((f a).run s₁) s' :=
  Proc.awaits_bind

theorem runs_liftM {x : Sync ε π σ α} {s : σ} {r : Result ε π σ α} :
    Proc.Runs ans ((liftM x : Async Q A ε π σ α).run s) r ↔ x.run s = r := by
  rw [run_liftM, Proc.runs_toProc, eq_comm]

theorem runs_call {q : Q} {s : σ} {r : Result ε π σ (A q)} :
    Proc.Runs ans ((call q : Async Q A ε π σ (A q)).run s) r ↔ ∃ a, ans q a ∧ r = .ok s a := by
  simp [Proc.runs_await]

theorem runs_attemptProc {p : Proc Q A ε π σ α} {s' : σ} {b : Except ε α} :
    Proc.Runs ans (attemptProc p) (.ok s' b) ↔
      (∃ a, b = .ok a ∧ Proc.Runs ans p (.ok s' a)) ∨
      (∃ e, b = .error e ∧ Proc.Runs ans p (.err s' e)) := by
  induction p with
  | ok s a =>
    simp only [attemptProc, Proc.runs_ok, Result.ok.injEq]
    constructor
    · rintro ⟨rfl, rfl⟩
      exact .inl ⟨a, rfl, rfl, rfl⟩
    · rintro (⟨_, rfl, rfl, rfl⟩ | ⟨_, _, h⟩)
      · exact ⟨rfl, rfl⟩
      · cases h
  | err s e =>
    simp only [attemptProc, Proc.runs_ok, Proc.runs_err, Result.ok.injEq]
    constructor
    · rintro ⟨rfl, rfl⟩
      exact .inr ⟨e, rfl, rfl⟩
    · rintro (⟨_, _, h⟩ | ⟨_, rfl, h⟩)
      · cases h
      · cases h
        exact ⟨rfl, rfl⟩
  | trap p => simp [attemptProc]
  | await s q k ih =>
    simp only [attemptProc, Proc.runs_await, ih]
    constructor
    -- the outcome is caught at the end, after the same answers
    · rintro ⟨a, ha, ⟨c, hc, h⟩ | ⟨e, he, h⟩⟩
      · exact .inl ⟨c, hc, a, ha, h⟩
      · exact .inr ⟨e, he, a, ha, h⟩
    · rintro (⟨c, hc, a, ha, h⟩ | ⟨e, he, a, ha, h⟩)
      · exact ⟨a, ha, .inl ⟨c, hc, h⟩⟩
      · exact ⟨a, ha, .inr ⟨e, he, h⟩⟩

/-- An attempt returns the value or the error of the code. -/
theorem runs_attempt {x : Async Q A ε π σ α} {s s' : σ} {b : Except ε α} :
    Proc.Runs ans ((attempt x).run s) (.ok s' b) ↔
      (∃ a, b = .ok a ∧ Proc.Runs ans (x.run s) (.ok s' a)) ∨
      (∃ e, b = .error e ∧ Proc.Runs ans (x.run s) (.err s' e)) :=
  runs_attemptProc

/-- A read, then more. -/
theorem runs_gets_bind {g : σ → α} {f : α → Async Q A ε π σ β} {s : σ} {r : Result ε π σ β} :
    Proc.Runs ans (((liftM (Sync.gets g : Sync ε π σ α) : Async Q A ε π σ α) >>= f).run s) r ↔
      Proc.Runs ans ((f (g s)).run s) r := Iff.rfl

/-- Synchronous code, then more. -/
theorem runs_liftM_bind_ok {x : Sync ε π σ α} {f : α → Async Q A ε π σ β} {s s' : σ} {b : β} :
    Proc.Runs ans (((liftM x : Async Q A ε π σ α) >>= f).run s) (.ok s' b) ↔
      ∃ s₁ a, x.run s = .ok s₁ a ∧ Proc.Runs ans ((f a).run s₁) (.ok s' b) := by
  simp only [runs_bind_ok, runs_liftM]

/-- Code that only computes, then more. -/
theorem runs_except_bind_ok {x : Except π α} {f : α → Async Q A ε π σ β} {s s' : σ} {b : β} :
    Proc.Runs ans (((liftM x : Async Q A ε π σ α) >>= f).run s) (.ok s' b) ↔
      ∃ a, x = .ok a ∧ Proc.Runs ans ((f a).run s) (.ok s' b) := by
  cases x with
  | error p => simp [Result.toProc, Proc.bind]
  | ok a => simp [Result.toProc, Proc.bind]

end Async

/-! ### Programs with one result -/

/-- The answers lead `p` to `r` and to nothing else. -/
def Proc.Gives (ans : (q : Q) → A q → Prop) (p : Proc Q A ε π σ α) (r : Result ε π σ α) : Prop :=
  ∀ r', Proc.Runs ans p r' ↔ r' = r

namespace Proc.Gives

variable {ans : (q : Q) → A q → Prop}

theorem ok (s : σ) (a : α) : (Proc.ok s a : Proc Q A ε π σ α).Gives ans (.ok s a) :=
  fun _ => runs_ok

/-- A call that has one answer. -/
theorem await {s : σ} {q : Q} {k : A q → σ → Proc Q A ε π σ α} {a : A q} {r : Result ε π σ α}
    (hans : ∀ b, ans q b ↔ b = a) (hk : (k a s).Gives ans r) :
    (Proc.await s q k).Gives ans r := by
  intro r'
  rw [runs_await]
  constructor
  · rintro ⟨b, hb, hr⟩
    rw [(hans b).mp hb] at hr
    exact (hk r').mp hr
  · intro hr
    exact ⟨a, (hans a).mpr rfl, (hk r').mpr hr⟩

/-- A part that gives a value, then the rest. -/
theorem bind {p : Proc Q A ε π σ α} {f : α → σ → Proc Q A ε π σ β} {s : σ} {a : α}
    {r : Result ε π σ β} (hp : p.Gives ans (.ok s a)) (hf : (f a s).Gives ans r) :
    (p.bind f).Gives ans r := by
  intro r'
  cases r' with
  | ok s' b => rw [runs_bind_ok, ← hf]; simp [hp _, and_assoc]
  | err s' e => rw [runs_bind_err, ← hf]; simp [hp _, and_assoc]
  | trap t => rw [runs_bind_trap, ← hf]; simp [hp _, and_assoc]

end Proc.Gives

/-! ### Code that writes nothing -/

/-- The state a result keeps is `s`. -/
def Result.Keeps (s : σ) : Result ε π σ α → Prop
  | .ok s' _ => s' = s
  | .err s' _ => s' = s
  | .trap _ => True

/-- Code whose every result and every stop has the state it was started in. -/
structure Async.ReadOnly (x : Async Q A ε π σ α) : Prop where
  runs : ∀ ans s r, Proc.Runs ans (x.run s) r → r.Keeps s
  awaits : ∀ ans s s', Proc.Awaits ans (x.run s) s' → s' = s

namespace Async.ReadOnly

theorem ok {x : Async Q A ε π σ α} (h : x.ReadOnly) {ans : (q : Q) → A q → Prop} {s s' : σ}
    {a : α} (hr : Proc.Runs ans (x.run s) (.ok s' a)) : s' = s :=
  h.runs ans s _ hr

theorem err {x : Async Q A ε π σ α} (h : x.ReadOnly) {ans : (q : Q) → A q → Prop} {s s' : σ}
    {e : ε} (hr : Proc.Runs ans (x.run s) (.err s' e)) : s' = s :=
  h.runs ans s _ hr

theorem pure (a : α) : (Pure.pure a : Async Q A ε π σ α).ReadOnly where
  runs _ _ _ h := by rw [Proc.runs_ok.mp h]; rfl
  awaits _ _ _ h := nomatch h

theorem call (q : Q) : (Async.call q : Async Q A ε π σ (A q)).ReadOnly where
  runs _ _ _ h := by
    obtain ⟨_, _, rfl⟩ := runs_call.mp h
    rfl
  awaits _ _ _ h := by
    cases h with
    | here => rfl
    | later _ h => nomatch h

theorem lift {x : Sync ε π σ α} (h : ∀ s, (x.run s).Keeps s) :
    (liftM x : Async Q A ε π σ α).ReadOnly where
  runs _ s _ hr := by
    rw [← runs_liftM.mp hr]
    exact h s
  awaits _ _ _ ha := absurd ha Proc.awaits_toProc

theorem gets (f : σ → α) : (liftM (Sync.gets f : Sync ε π σ α) : Async Q A ε π σ α).ReadOnly :=
  lift fun _ => rfl

theorem fail (e : ε) : (liftM (Sync.fail e : Sync ε π σ α) : Async Q A ε π σ α).ReadOnly :=
  lift fun _ => rfl

theorem bind {x : Async Q A ε π σ α} {f : α → Async Q A ε π σ β} (hx : x.ReadOnly)
    (hf : ∀ a, (f a).ReadOnly) : (x >>= f).ReadOnly where
  runs ans s r h := by
    cases r with
    | ok s' b =>
      obtain ⟨s₁, a, h₁, h₂⟩ := runs_bind_ok.mp h
      rw [hx.ok h₁] at h₂
      exact (hf a).runs ans s _ h₂
    | err s' e =>
      rcases runs_bind_err.mp h with h₁ | ⟨s₁, a, h₁, h₂⟩
      · exact hx.err h₁
      · rw [hx.ok h₁] at h₂
        exact (hf a).runs ans s _ h₂
    | trap p => trivial
  awaits ans s s' h := by
    rcases awaits_bind.mp h with h | ⟨s₁, a, h₁, h₂⟩
    · exact hx.awaits ans s s' h
    · rw [hx.ok h₁] at h₂
      exact (hf a).awaits ans s s' h₂

end Async.ReadOnly

end Resumption
