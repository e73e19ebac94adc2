import RunesIndexer.Lib.Resumption

/-! # Executions with their calls

    `Proc.RunsVia ans p l r` is an undisturbed execution of `p` to `r` whose calls and
    answers are those in `l`. It has the inversion rules of `Proc.Runs`, and every
    execution has such a list.
-/

namespace Resumption

variable {Q : Type} {A : Q → Type} {ε π σ α β : Type}

namespace Proc

/-- `p` runs to `r` by the calls and answers in the list. -/
inductive RunsVia (ans : (q : Q) → A q → Prop) :
    Proc Q A ε π σ α → List ((q : Q) × A q) → Result ε π σ α → Prop
  | ok (s : σ) (a : α) : RunsVia ans (.ok s a) [] (.ok s a)
  | err (s : σ) (e : ε) : RunsVia ans (.err s e) [] (.err s e)
  | trap (p : π) : RunsVia ans (.trap p) [] (.trap p)
  | await {s : σ} {q : Q} {k : A q → σ → Proc Q A ε π σ α} {a : A q}
      {l : List ((q : Q) × A q)} {r : Result ε π σ α} :
      ans q a → RunsVia ans (k a s) l r → RunsVia ans (.await s q k) (⟨q, a⟩ :: l) r

variable {ans : (q : Q) → A q → Prop}

theorem runsVia_ok {s : σ} {a : α} {l : List ((q : Q) × A q)} {r : Result ε π σ α} :
    RunsVia ans (.ok s a) l r ↔ l = [] ∧ r = .ok s a :=
  ⟨fun h => by cases h; exact ⟨rfl, rfl⟩, fun ⟨hl, hr⟩ => hl ▸ hr ▸ .ok s a⟩

theorem runsVia_err {s : σ} {e : ε} {l : List ((q : Q) × A q)} {r : Result ε π σ α} :
    RunsVia ans (.err s e) l r ↔ l = [] ∧ r = .err s e :=
  ⟨fun h => by cases h; exact ⟨rfl, rfl⟩, fun ⟨hl, hr⟩ => hl ▸ hr ▸ .err s e⟩

theorem runsVia_trap {t : π} {l : List ((q : Q) × A q)} {r : Result ε π σ α} :
    RunsVia ans (.trap t) l r ↔ l = [] ∧ r = .trap t :=
  ⟨fun h => by cases h; exact ⟨rfl, rfl⟩, fun ⟨hl, hr⟩ => hl ▸ hr ▸ .trap t⟩

theorem runsVia_await {s : σ} {q : Q} {k : A q → σ → Proc Q A ε π σ α}
    {l : List ((q : Q) × A q)} {r : Result ε π σ α} :
    RunsVia ans (.await s q k) l r ↔ ∃ a l', ans q a ∧ l = ⟨q, a⟩ :: l' ∧ RunsVia ans (k a s) l' r :=
  ⟨fun h => by cases h with | await ha hr => exact ⟨_, _, ha, rfl, hr⟩,
   fun ⟨_, _, ha, hl, hr⟩ => hl ▸ .await ha hr⟩

/-- A sequence makes the calls of its first part, and after its return those of the second. -/
theorem RunsVia.of_bind {p : Proc Q A ε π σ α} {f : α → σ → Proc Q A ε π σ β}
    {l : List ((q : Q) × A q)} {r : Result ε π σ β} (h : RunsVia ans (p.bind f) l r) :
    (∃ l₁ l₂ s a, l = l₁ ++ l₂ ∧ RunsVia ans p l₁ (.ok s a) ∧ RunsVia ans (f a s) l₂ r) ∨
    (∃ s e, r = .err s e ∧ RunsVia ans p l (.err s e)) ∨
    ∃ t, r = .trap t ∧ RunsVia ans p l (.trap t) := by
  induction p generalizing l with
  | ok s a => exact .inl ⟨[], l, s, a, rfl, .ok s a, h⟩
  | err s e =>
    obtain ⟨rfl, rfl⟩ := runsVia_err.mp h
    exact .inr (.inl ⟨s, e, rfl, .err s e⟩)
  | trap t =>
    obtain ⟨rfl, rfl⟩ := runsVia_trap.mp h
    exact .inr (.inr ⟨t, rfl, .trap t⟩)
  | await s q k ih =>
    obtain ⟨a, l', ha, rfl, hr⟩ := runsVia_await.mp h
    rcases ih a s hr with ⟨l₁, l₂, s₁, b, rfl, h₁, h₂⟩ | ⟨s₁, e, rfl, h₁⟩ | ⟨t, rfl, h₁⟩
    · exact .inl ⟨⟨q, a⟩ :: l₁, l₂, s₁, b, rfl, .await ha h₁, h₂⟩
    · exact .inr (.inl ⟨s₁, e, rfl, .await ha h₁⟩)
    · exact .inr (.inr ⟨t, rfl, .await ha h₁⟩)

/-- Where its first calls are those of a return of the first part, it is in the second part
    after them: the answers determine an execution. -/
theorem RunsVia.after_bind {ans' : (q : Q) → A q → Prop} {p : Proc Q A ε π σ α}
    {f : α → σ → Proc Q A ε π σ β} {l₁ l₂ : List ((q : Q) × A q)} {s : σ} {a : α}
    {r : Result ε π σ β} (h : RunsVia ans (p.bind f) (l₁ ++ l₂) r)
    (h₁ : RunsVia ans' p l₁ (.ok s a)) : RunsVia ans (f a s) l₂ r := by
  generalize hr₁ : (Result.ok s a : Result ε π σ α) = r₁ at h₁
  induction h₁ with
  | ok s' a' =>
    cases hr₁
    exact h
  | err s' e => cases hr₁
  | trap t => cases hr₁
  | await _ _ ih =>
    obtain ⟨b, l', -, hl, hr⟩ := runsVia_await.mp h
    cases hl
    exact ih hr hr₁

/-- Every answer on the way is an allowed one. -/
theorem RunsVia.answered {p : Proc Q A ε π σ α} {l : List ((q : Q) × A q)} {r : Result ε π σ α}
    (h : RunsVia ans p l r) : ∀ x ∈ l, ans x.1 x.2 := by
  induction h with
  | ok s a => exact fun x hx => absurd hx List.not_mem_nil
  | err s e => exact fun x hx => absurd hx List.not_mem_nil
  | trap t => exact fun x hx => absurd hx List.not_mem_nil
  | await ha _ ih =>
    intro x hx
    rcases List.mem_cons.mp hx with rfl | hx
    · exact ha
    · exact ih x hx

theorem RunsVia.mono {ans' : (q : Q) → A q → Prop} (hle : ∀ q a, ans q a → ans' q a)
    {p : Proc Q A ε π σ α} {l : List ((q : Q) × A q)} {r : Result ε π σ α}
    (h : RunsVia ans p l r) : RunsVia ans' p l r := by
  induction h with
  | ok s a => exact .ok s a
  | err s e => exact .err s e
  | trap t => exact .trap t
  | await ha _ ih => exact .await (hle _ _ ha) ih

/-- Every execution makes some calls. -/
theorem Runs.via {p : Proc Q A ε π σ α} {r : Result ε π σ α} (h : Runs ans p r) :
    ∃ l, RunsVia ans p l r := by
  induction h with
  | ok s a => exact ⟨[], .ok s a⟩
  | err s e => exact ⟨[], .err s e⟩
  | trap t => exact ⟨[], .trap t⟩
  | await ha _ ih =>
    obtain ⟨l, hl⟩ := ih
    exact ⟨_, .await ha hl⟩

end Proc

end Resumption
