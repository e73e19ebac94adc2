import RunesIndexer.Lib.Resumption
import Mathlib.Data.List.Perm.Basic

/-! # Monadic folds

    Invariant rules for `List.foldlM` over code that may fail, and the rule that
    a fold whose steps commute does not depend on the order of its list.
-/

namespace MonadicFold

variable {α β ε π σ : Type}

/-! ### Code that may fail -/

theorem except_bind_eq_ok {γ : Type} {x : Except ε α} {f : α → Except ε γ} {c : γ} :
    (x >>= f) = .ok c ↔ ∃ a, x = .ok a ∧ f a = .ok c := by
  cases x with
  | error e => simp [bind, Except.bind]
  | ok a => simp [bind, Except.bind]

theorem except_pure_eq_ok {a b : α} : (pure a : Except ε α) = .ok b ↔ b = a := by
  simp [pure, Except.pure, eq_comm]

theorem except_foldlM_cons {f : β → α → Except ε β} {a : α} {l : List α} {b b' : β} :
    (a :: l).foldlM f b = .ok b' ↔ ∃ c, f b a = .ok c ∧ l.foldlM f c = .ok b' := by
  rw [List.foldlM_cons, except_bind_eq_ok]

theorem except_foldlM_nil {f : β → α → Except ε β} {b b' : β} :
    ([] : List α).foldlM f b = .ok b' ↔ b' = b := by
  rw [List.foldlM_nil, except_pure_eq_ok]

/-- A property that every step preserves holds of the result of the fold. -/
theorem except_foldlM_invariant {f : β → α → Except ε β} {l : List α} {P : β → Prop}
    (hstep : ∀ a ∈ l, ∀ b b', P b → f b a = .ok b' → P b')
    {b b' : β} (hb : P b) (h : l.foldlM f b = .ok b') : P b' := by
  induction l generalizing b with
  | nil => rw [except_foldlM_nil.mp h]; exact hb
  | cons a l ih =>
    obtain ⟨c, h₁, h₂⟩ := except_foldlM_cons.mp h
    exact ih (fun a' ha' => hstep a' (List.mem_cons_of_mem _ ha'))
      (hstep a List.mem_cons_self b c hb h₁) h₂

/-- The fold returns when every step from a state with the invariant does. -/
theorem except_foldlM_total {f : β → α → Except ε β} {l : List α} {P : β → Prop}
    (hstep : ∀ a ∈ l, ∀ b, P b → ∃ b', f b a = .ok b' ∧ P b')
    {b : β} (hb : P b) : ∃ b', l.foldlM f b = .ok b' ∧ P b' := by
  induction l generalizing b with
  | nil => exact ⟨b, except_foldlM_nil.mpr rfl, hb⟩
  | cons a l ih =>
    obtain ⟨c, h₁, hc⟩ := hstep a List.mem_cons_self b hb
    obtain ⟨b', h₂, hb'⟩ := ih (fun a' ha' => hstep a' (List.mem_cons_of_mem _ ha')) hc
    exact ⟨b', except_foldlM_cons.mpr ⟨c, h₁, h₂⟩, hb'⟩

/-! ### Synchronous code -/

open Resumption

theorem sync_foldlM_cons {f : β → α → Sync ε π σ β} {a : α} {l : List α} {b b' : β} {s s' : σ} :
    ((a :: l).foldlM f b).run s = .ok s' b' ↔
      ∃ s₁ c, (f b a).run s = .ok s₁ c ∧ (l.foldlM f c).run s₁ = .ok s' b' := by
  rw [List.foldlM_cons, Sync.bind_eq_ok]

theorem sync_foldlM_nil {f : β → α → Sync ε π σ β} {b b' : β} {s s' : σ} :
    (([] : List α).foldlM f b).run s = .ok s' b' ↔ s' = s ∧ b' = b := by
  rw [List.foldlM_nil]
  simp [eq_comm]

theorem sync_foldlM_invariant {f : β → α → Sync ε π σ β} {l : List α} {P : β → σ → Prop}
    (hstep : ∀ a ∈ l, ∀ b s b' s', P b s → (f b a).run s = .ok s' b' → P b' s')
    {b b' : β} {s s' : σ} (hb : P b s) (h : (l.foldlM f b).run s = .ok s' b') : P b' s' := by
  induction l generalizing b s with
  | nil =>
    obtain ⟨rfl, rfl⟩ := sync_foldlM_nil.mp h
    exact hb
  | cons a l ih =>
    obtain ⟨s₁, c, h₁, h₂⟩ := sync_foldlM_cons.mp h
    exact ih (fun a' ha' => hstep a' (List.mem_cons_of_mem _ ha'))
      (hstep a List.mem_cons_self b s c s₁ hb h₁) h₂

theorem sync_foldlM_total {f : β → α → Sync ε π σ β} {l : List α} {P : β → σ → Prop}
    (hstep : ∀ a ∈ l, ∀ b s, P b s → ∃ s' b', (f b a).run s = .ok s' b' ∧ P b' s')
    {b : β} {s : σ} (hb : P b s) : ∃ s' b', (l.foldlM f b).run s = .ok s' b' ∧ P b' s' := by
  induction l generalizing b s with
  | nil => exact ⟨s, b, sync_foldlM_nil.mpr ⟨rfl, rfl⟩, hb⟩
  | cons a l ih =>
    obtain ⟨s₁, c, h₁, hc⟩ := hstep a List.mem_cons_self b s hb
    obtain ⟨s', b', h₂, hb'⟩ := ih (fun a' ha' => hstep a' (List.mem_cons_of_mem _ ha')) hc
    exact ⟨s', b', sync_foldlM_cons.mpr ⟨s₁, c, h₁, h₂⟩, hb'⟩

theorem sync_forM_cons {f : α → Sync ε π σ Unit} {a : α} {l : List α} {s s' : σ} :
    (forM (a :: l) f).run s = .ok s' () ↔
      ∃ s₁, (f a).run s = .ok s₁ () ∧ (forM l f).run s₁ = .ok s' () := by
  rw [List.forM_cons, Sync.bind_eq_ok]
  constructor
  · rintro ⟨s₁, ⟨⟩, h⟩
    exact ⟨s₁, h⟩
  · rintro ⟨s₁, h⟩
    exact ⟨s₁, (), h⟩

theorem sync_forM_nil {f : α → Sync ε π σ Unit} {s s' : σ} :
    (forM ([] : List α) f).run s = .ok s' () ↔ s' = s := by
  rw [List.forM_nil]
  simp [eq_comm]

/-! ### Step relations along a list -/

/-- One step of `R` for each element of a list. -/
inductive Steps (R : α → σ → σ → Prop) : List α → σ → σ → Prop
  | nil {s : σ} : Steps R [] s s
  | cons {a : α} {l : List α} {s s₁ s' : σ} (head : R a s s₁) (tail : Steps R l s₁ s') :
      Steps R (a :: l) s s'

/-- What every step preserves holds at the end. -/
theorem Steps.invariant {R : α → σ → σ → Prop} {P : σ → Prop} {l : List α} {s s' : σ}
    (h : Steps R l s s') (hstep : ∀ a ∈ l, ∀ s s', P s → R a s s' → P s') (h₀ : P s) : P s' := by
  induction h with
  | nil => exact h₀
  | cons head tail ih =>
    exact ih (fun a ha => hstep a (List.mem_cons_of_mem _ ha))
      (hstep _ List.mem_cons_self _ _ h₀ head)

/-- What a step establishes for its element and the others keep holds at the end of all. -/
theorem Steps.each {R : α → σ → σ → Prop} {Q : α → σ → Prop} {l : List α} {s s' : σ}
    (h : Steps R l s s') (hnew : ∀ a s s', R a s s' → Q a s')
    (hkeep : ∀ a b s s', Q b s → R a s s' → Q b s') : ∀ a ∈ l, Q a s' := by
  induction h with
  | nil => exact fun a ha => absurd ha List.not_mem_nil
  | cons head tail ih =>
    rintro a (_ | ⟨_, ha⟩)
    · exact tail.invariant (fun b _ s s' hQ hR => hkeep b _ s s' hQ hR) (hnew _ _ _ head)
    · exact ih a ha

/-- What a step raises by one at most, the steps of a list raise by its length at most. -/
theorem Steps.count {R : α → σ → σ → Prop} {f : σ → Nat} {l : List α} {s s' : σ}
    (h : Steps R l s s') (hstep : ∀ a s s', R a s s' → f s' ≤ f s + 1) :
    f s' ≤ f s + l.length := by
  induction h with
  | nil => exact Nat.le_refl _
  | cons head tail ih =>
    have hhead := hstep _ _ _ head
    rw [List.length_cons]
    omega

/-- A fold whose steps refine `R` refines its steps. -/
theorem steps_of_foldlM {τ : Type} {f : β → α → Sync ε π σ β} (I : σ → β → Prop)
    (view : σ → β → τ) (R : α → τ → τ → Prop) {l : List α}
    (hstep : ∀ a ∈ l, ∀ s b s' b', I s b → (f b a).run s = .ok s' b' →
      I s' b' ∧ R a (view s b) (view s' b'))
    {s s' : σ} {b b' : β} (hI : I s b) (h : (l.foldlM f b).run s = .ok s' b') :
    I s' b' ∧ Steps R l (view s b) (view s' b') := by
  induction l generalizing s b with
  | nil =>
    obtain ⟨rfl, rfl⟩ := sync_foldlM_nil.mp h
    exact ⟨hI, .nil⟩
  | cons a l ih =>
    obtain ⟨s₁, c, h₁, h₂⟩ := sync_foldlM_cons.mp h
    obtain ⟨hI₁, hR⟩ := hstep a List.mem_cons_self s b s₁ c hI h₁
    obtain ⟨hI', hsteps⟩ := ih (fun a' ha' => hstep a' (List.mem_cons_of_mem _ ha')) hI₁ h₂
    exact ⟨hI', .cons hR hsteps⟩

/-! ### Order -/

/-- A fold whose steps commute gives the same for every order of the list. -/
theorem foldlM_perm {m : Type → Type} [Monad m] [LawfulMonad m] {f : β → α → m β}
    (hcomm : ∀ b x y, (f b x >>= fun c => f c y) = (f b y >>= fun c => f c x))
    {l l' : List α} (h : l.Perm l') (b : β) : l.foldlM f b = l'.foldlM f b := by
  induction h generalizing b with
  | nil => rfl
  | cons a _ ih => simp only [List.foldlM_cons, ih]
  | swap a a' l =>
    simp only [List.foldlM_cons, ← bind_assoc]
    rw [hcomm]
  | trans _ _ ih₁ ih₂ => rw [ih₁, ih₂]

/-- For a loop without a result it is enough that its own steps commute. -/
theorem forM_perm {m : Type → Type} [Monad m] [LawfulMonad m] {f : α → m Unit} {l l' : List α}
    (h : l.Perm l')
    (hcomm : l.Pairwise fun x y => (f x >>= fun _ => f y) = (f y >>= fun _ => f x)) :
    forM l f = forM l' f := by
  induction h with
  | nil => rfl
  | cons a _ ih =>
    rw [List.forM_cons, List.forM_cons, ih (List.pairwise_cons.mp hcomm).2]
  | swap a a' l =>
    have hswap := (List.pairwise_cons.mp hcomm).1 a List.mem_cons_self
    simp only [List.forM_cons, ← bind_assoc]
    rw [hswap]
  | trans h₁ _ ih₁ ih₂ =>
    exact (ih₁ hcomm).trans (ih₂ ((h₁.pairwise_iff fun heq => heq.symm).mp hcomm))

end MonadicFold
