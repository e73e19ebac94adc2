import RunesIndexer.Lib.Fold

/-! # Invariants of a shared state

    Segments of several programs run on one state, in any order: whatever a program
    finds when it is resumed was left there by others. `Proc.Maintains I R p` is what each
    of them must guarantee then. It leaves `I` wherever it stops, relies on nothing but `I`
    when it goes on, and returns a value in `R`. An undisturbed execution is a special case.
-/

namespace Resumption

variable {Q : Type} {A : Q → Type} {ε π σ α β : Type} {I : σ → Prop} {R : α → Prop}
  {S : β → Prop}

/-- The state that is left has `I`, and the value returned is in `R`. -/
def Result.Maintains (I : σ → Prop) (R : α → Prop) : Result ε π σ α → Prop
  | .ok s a => I s ∧ R a
  | .err s _ => I s
  | .trap _ => True

/-- At every stop and at the end the state has `I`, when that is all that is known of the
    state on resumption. -/
def Proc.Maintains (I : σ → Prop) (R : α → Prop) : Proc Q A ε π σ α → Prop
  | .ok s a => I s ∧ R a
  | .err s _ => I s
  | .trap _ => True
  | .await s _ k => I s ∧ ∀ a s', I s' → (k a s').Maintains I R

/-- Synchronous code that keeps `I`. -/
def Sync.Maintains (I : σ → Prop) (R : α → Prop) (x : Sync ε π σ α) : Prop :=
  ∀ s, I s → (x.run s).Maintains I R

/-- Code with calls that keeps `I`. -/
def Async.Maintains (I : σ → Prop) (R : α → Prop) (x : Async Q A ε π σ α) : Prop :=
  ∀ s, I s → (x.run s).Maintains I R

/-! ### Programs -/

namespace Proc.Maintains

/-- The end of an undisturbed execution. -/
theorem runs {ans : (q : Q) → A q → Prop} {p : Proc Q A ε π σ α} (h : p.Maintains I R)
    {r : Result ε π σ α} (hr : Proc.Runs ans p r) : r.Maintains I R := by
  induction hr with
  | ok s a => exact h
  | err s e => exact h
  | trap p => exact h
  | await _ _ ih => exact ih (h.2 _ _ h.1)

/-- Where an undisturbed execution stops. -/
theorem awaits {ans : (q : Q) → A q → Prop} {p : Proc Q A ε π σ α} (h : p.Maintains I R)
    {s : σ} (ha : Proc.Awaits ans p s) : I s := by
  induction ha with
  | here => exact h.1
  | later _ _ ih => exact ih (h.2 _ _ h.1)

theorem bind {p : Proc Q A ε π σ α} {f : α → σ → Proc Q A ε π σ β} (h : p.Maintains I R)
    (hf : ∀ a s, R a → I s → (f a s).Maintains I S) : (p.bind f).Maintains I S := by
  induction p with
  | ok s a => exact hf a s h.2 h.1
  | err s e => exact h
  | trap p => trivial
  | await s q k ih => exact ⟨h.1, fun a s' hs' => ih a s' (h.2 a s' hs')⟩

theorem toProc {r : Result ε π σ α} (h : r.Maintains I R) :
    (r.toProc : Proc Q A ε π σ α).Maintains I R := by
  cases r <;> exact h

/-- An error that is handed on as a value leaves `I` too. -/
theorem attempt {p : Proc Q A ε π σ α} (h : p.Maintains I R) :
    (Async.attemptProc p).Maintains I fun x => ∀ a, x = .ok a → R a := by
  induction p with
  | ok s a => exact ⟨h.1, fun b hb => by cases hb; exact h.2⟩
  | err s e => exact ⟨h, nofun⟩
  | trap p => trivial
  | await s q k ih => exact ⟨h.1, fun a s' hs' => ih a s' (h.2 a s' hs')⟩

end Proc.Maintains

/-! ### Synchronous code -/

namespace Sync.Maintains

theorem pure {a : α} (h : R a) : (Pure.pure a : Sync ε π σ α).Maintains I R :=
  fun _ hs => ⟨hs, h⟩

theorem bind {x : Sync ε π σ α} {f : α → Sync ε π σ β} (hx : x.Maintains I R)
    (hf : ∀ a, R a → (f a).Maintains I S) : (x >>= f).Maintains I S := by
  intro s hs
  have hrun := hx s hs
  rw [Sync.run_bind]
  cases h : x.run s with
  | ok s₁ a =>
    rw [h] at hrun
    exact hf a hrun.2 s₁ hrun.1
  | err s₁ e =>
    rw [h] at hrun
    exact hrun
  | trap p => trivial

theorem gets {f : σ → α} (h : ∀ s, I s → R (f s)) :
    (Sync.gets f : Sync ε π σ α).Maintains I R := fun s hs => ⟨hs, h s hs⟩

theorem modify {f : σ → σ} (h : ∀ s, I s → I (f s)) :
    (Sync.modify f : Sync ε π σ Unit).Maintains I fun _ => True := fun s hs => ⟨h s hs, trivial⟩

theorem fail (e : ε) : (Sync.fail e : Sync ε π σ α).Maintains I R := fun _ hs => hs

theorem ofExcept {x : Except π α} (h : ∀ a, x = .ok a → R a) :
    (liftM x : Sync ε π σ α).Maintains I R := by
  intro s hs
  cases x with
  | error p => trivial
  | ok a => exact ⟨hs, h a rfl⟩

theorem foldlM {f : β → α → Sync ε π σ β} {l : List α} {b : β} (hb : S b)
    (hstep : ∀ a ∈ l, ∀ b, S b → (f b a).Maintains I S) : (l.foldlM f b).Maintains I S := by
  induction l generalizing b with
  | nil => exact .pure hb
  | cons a l ih =>
    rw [List.foldlM_cons]
    refine .bind (hstep a List.mem_cons_self b hb) fun c hc => ?_
    exact ih hc fun a' ha' => hstep a' (List.mem_cons_of_mem _ ha')

theorem forM {f : α → Sync ε π σ Unit} {l : List α}
    (hstep : ∀ a ∈ l, (f a).Maintains I fun _ => True) :
    (l.forM f).Maintains I fun _ => True := by
  induction l with
  | nil => exact .pure trivial
  | cons a l ih =>
    show (f a >>= fun _ => l.forM f).Maintains I fun _ => True
    refine .bind (hstep a List.mem_cons_self) fun _ _ => ?_
    exact ih fun a' ha' => hstep a' (List.mem_cons_of_mem _ ha')

end Sync.Maintains

/-! ### Code with calls -/

namespace Async.Maintains

theorem pure {a : α} (h : R a) : (Pure.pure a : Async Q A ε π σ α).Maintains I R :=
  fun _ hs => ⟨hs, h⟩

theorem bind {x : Async Q A ε π σ α} {f : α → Async Q A ε π σ β} (hx : x.Maintains I R)
    (hf : ∀ a, R a → (f a).Maintains I S) : (x >>= f).Maintains I S :=
  fun s hs => (hx s hs).bind fun a s' ha hs' => hf a ha s' hs'

theorem lift {x : Sync ε π σ α} (h : x.Maintains I R) :
    (liftM x : Async Q A ε π σ α).Maintains I R := fun s hs => .toProc (h s hs)

theorem ofExcept {x : Except π α} (h : ∀ a, x = .ok a → R a) :
    (liftM x : Async Q A ε π σ α).Maintains I R :=
  fun s hs => .toProc (Sync.Maintains.ofExcept h s hs)

theorem call (q : Q) : (Async.call q : Async Q A ε π σ (A q)).Maintains I fun _ => True :=
  fun _ hs => ⟨hs, fun _ _ hs' => ⟨hs', trivial⟩⟩

theorem attempt {x : Async Q A ε π σ α} (h : x.Maintains I R) :
    (Async.attempt x).Maintains I fun y => ∀ a, y = .ok a → R a :=
  fun s hs => (h s hs).attempt

end Async.Maintains

end Resumption
