import RunesIndexer.Lib.Handler
import RunesIndexer.Lib.Trace

/-! # Which calls a program makes

    `Proc.CallsOnly P p`: whatever the answers are and whatever state it is resumed in, `p`
    makes only calls in `P`. It is proved along the code, and then holds of every list of
    calls that an execution leaves.

    For executions with their calls there are the rules of sequenced code, as
    `Proc.Runs` has them. `Proc.RunsAmid` is for those that other segments disturb: each
    answer may find any state.
-/

namespace Resumption

variable {Q : Type} {A : Q → Type} {ε π σ α β : Type} {P : Q → Prop}

/-! ### Calls of one kind -/

/-- Every call of the program is in `P`. -/
def Proc.CallsOnly (P : Q → Prop) : Proc Q A ε π σ α → Prop
  | .ok _ _ => True
  | .err _ _ => True
  | .trap _ => True
  | .await _ q k => P q ∧ ∀ a s, (k a s).CallsOnly P

/-- Every call of the code is in `P`. -/
def Async.CallsOnly (P : Q → Prop) (x : Async Q A ε π σ α) : Prop := ∀ s, (x.run s).CallsOnly P

namespace Proc.CallsOnly

theorem bind {p : Proc Q A ε π σ α} {f : α → σ → Proc Q A ε π σ β} (h : p.CallsOnly P)
    (hf : ∀ a s, (f a s).CallsOnly P) : (p.bind f).CallsOnly P := by
  induction p with
  | ok s a => exact hf a s
  | err s e => trivial
  | trap p => trivial
  | await s q k ih => exact ⟨h.1, fun a s' => ih a s' (h.2 a s')⟩

theorem toProc (r : Result ε π σ α) : (r.toProc : Proc Q A ε π σ α).CallsOnly P := by
  cases r <;> trivial

theorem attempt {p : Proc Q A ε π σ α} (h : p.CallsOnly P) :
    (Async.attemptProc p).CallsOnly P := by
  induction p with
  | ok s a => trivial
  | err s e => trivial
  | trap p => trivial
  | await s q k ih => exact ⟨h.1, fun a s' => ih a s' (h.2 a s')⟩

theorem mono {P' : Q → Prop} (hle : ∀ q, P q → P' q) {p : Proc Q A ε π σ α}
    (h : p.CallsOnly P) : p.CallsOnly P' := by
  induction p with
  | ok s a => trivial
  | err s e => trivial
  | trap p => trivial
  | await s q k ih => exact ⟨hle q h.1, fun a s' => ih a s' (h.2 a s')⟩

/-- When the calls are carried out, those of their handlers are made. -/
theorem interpret {Q' : Type} {A' : Q' → Type} {P' : Q' → Prop} {H : Handler Q A Q' A' π σ}
    {p : Proc Q A ε π σ α} (h : p.CallsOnly P) (hH : ∀ q, P q → ∀ s, ((H q).run s).CallsOnly P') :
    (p.interpret H).CallsOnly P' := by
  induction p with
  | ok s a => trivial
  | err s e => trivial
  | trap p => trivial
  | await s q k ih =>
    refine (hH q h.1 s).bind fun answer s' => ?_
    cases answer with
    | none => trivial
    | some a => exact ih a s' (h.2 a s')

/-- So are the calls of an execution. -/
theorem via {ans : (q : Q) → A q → Prop} {p : Proc Q A ε π σ α} (h : p.CallsOnly P)
    {l : List ((q : Q) × A q)} {r : Result ε π σ α} (hr : RunsVia ans p l r) :
    ∀ x ∈ l, P x.1 := by
  induction hr with
  | ok s a => exact fun x hx => absurd hx List.not_mem_nil
  | err s e => exact fun x hx => absurd hx List.not_mem_nil
  | trap t => exact fun x hx => absurd hx List.not_mem_nil
  | await _ _ ih =>
    intro x hx
    rcases List.mem_cons.mp hx with rfl | hx
    · exact h.1
    · exact ih (h.2 _ _) x hx

end Proc.CallsOnly

namespace Async.CallsOnly

theorem pure (a : α) : (Pure.pure a : Async Q A ε π σ α).CallsOnly P := fun _ => trivial

theorem bind {x : Async Q A ε π σ α} {f : α → Async Q A ε π σ β} (hx : x.CallsOnly P)
    (hf : ∀ a, (f a).CallsOnly P) : (x >>= f).CallsOnly P :=
  fun s => (hx s).bind fun a s' => hf a s'

theorem lift (x : Sync ε π σ α) : (liftM x : Async Q A ε π σ α).CallsOnly P :=
  fun _ => .toProc _

theorem ofExcept (x : Except π α) : (liftM x : Async Q A ε π σ α).CallsOnly P :=
  fun _ => .toProc _

theorem call {q : Q} (h : P q) : (Async.call q : Async Q A ε π σ (A q)).CallsOnly P :=
  fun _ => ⟨h, fun _ _ => trivial⟩

theorem attempt {x : Async Q A ε π σ α} (h : x.CallsOnly P) : (Async.attempt x).CallsOnly P :=
  fun s => (h s).attempt

end Async.CallsOnly

/-! ### Sequencing with calls -/

namespace Proc

variable {ans : (q : Q) → A q → Prop}

/-- Without its calls it is an execution. -/
theorem RunsVia.runs {p : Proc Q A ε π σ α} {l : List ((q : Q) × A q)} {r : Result ε π σ α}
    (h : RunsVia ans p l r) : Runs ans p r := by
  induction h with
  | ok s a => exact .ok s a
  | err s e => exact .err s e
  | trap t => exact .trap t
  | await ha _ ih => exact .await ha ih

/-- The calls of both parts, one after the other. -/
theorem RunsVia.bind {p : Proc Q A ε π σ α} {f : α → σ → Proc Q A ε π σ β}
    {l₁ l₂ : List ((q : Q) × A q)} {s : σ} {a : α} {r : Result ε π σ β}
    (h₁ : RunsVia ans p l₁ (.ok s a)) (h₂ : RunsVia ans (f a s) l₂ r) :
    RunsVia ans (p.bind f) (l₁ ++ l₂) r := by
  generalize hr₁ : (Result.ok s a : Result ε π σ α) = r₁ at h₁
  induction h₁ with
  | ok s' a' =>
    cases hr₁
    exact h₂
  | err s' e => cases hr₁
  | trap t => cases hr₁
  | await ha _ ih => exact .await ha (ih hr₁)

/-- A sequence returns when both parts do. -/
theorem runsVia_bind_ok {p : Proc Q A ε π σ α} {f : α → σ → Proc Q A ε π σ β}
    {l : List ((q : Q) × A q)} {s' : σ} {b : β} :
    RunsVia ans (p.bind f) l (.ok s' b) ↔ ∃ l₁ l₂ s a, l = l₁ ++ l₂ ∧
      RunsVia ans p l₁ (.ok s a) ∧ RunsVia ans (f a s) l₂ (.ok s' b) := by
  constructor
  · intro h
    rcases h.of_bind with h | ⟨s, e, hr, -⟩ | ⟨t, hr, -⟩
    · exact h
    · cases hr
    · cases hr
  · rintro ⟨l₁, l₂, s, a, rfl, h₁, h₂⟩
    exact h₁.bind h₂

/-- The calls when `f` answers them. -/
def callsWith (f : (q : Q) → A q) : Proc Q A ε π σ α → List ((q : Q) × A q)
  | .ok _ _ => []
  | .err _ _ => []
  | .trap _ => []
  | .await s q k => ⟨q, f q⟩ :: (k (f q) s).callsWith f

theorem runsVia_callsWith {f : (q : Q) → A q} (hf : ∀ q, ans q (f q)) (p : Proc Q A ε π σ α) :
    RunsVia ans p (p.callsWith f) (p.resultWith f) := by
  induction p with
  | ok s a => exact .ok s a
  | err s e => exact .err s e
  | trap t => exact .trap t
  | await s q k ih => exact .await (hf q) (ih (f q) s)

/-- A segment without calls. -/
theorem runsVia_toProc {x r : Result ε π σ α} {l : List ((q : Q) × A q)} :
    RunsVia ans (x.toProc : Proc Q A ε π σ α) l r ↔ l = [] ∧ r = x := by
  cases x with
  | ok s a => exact runsVia_ok
  | err s e => exact runsVia_err
  | trap t => exact runsVia_trap

end Proc

namespace Async

variable {ans : (q : Q) → A q → Prop}

theorem runsVia_bind_ok {x : Async Q A ε π σ α} {f : α → Async Q A ε π σ β}
    {l : List ((q : Q) × A q)} {s s' : σ} {b : β} :
    Proc.RunsVia ans ((x >>= f).run s) l (.ok s' b) ↔ ∃ l₁ l₂ s₁ a, l = l₁ ++ l₂ ∧
      Proc.RunsVia ans (x.run s) l₁ (.ok s₁ a) ∧
      Proc.RunsVia ans ((f a).run s₁) l₂ (.ok s' b) :=
  Proc.runsVia_bind_ok

/-- Synchronous code, then more. -/
theorem runsVia_liftM_bind_ok {x : Sync ε π σ α} {f : α → Async Q A ε π σ β}
    {l : List ((q : Q) × A q)} {s s' : σ} {b : β} :
    Proc.RunsVia ans (((liftM x : Async Q A ε π σ α) >>= f).run s) l (.ok s' b) ↔
      ∃ s₁ a, x.run s = .ok s₁ a ∧ Proc.RunsVia ans ((f a).run s₁) l (.ok s' b) := by
  rw [runsVia_bind_ok]
  constructor
  · rintro ⟨l₁, l₂, s₁, a, rfl, h₁, h₂⟩
    rw [run_liftM] at h₁
    obtain ⟨rfl, hx⟩ := Proc.runsVia_toProc.mp h₁
    exact ⟨s₁, a, hx.symm, h₂⟩
  · rintro ⟨s₁, a, hx, h⟩
    refine ⟨[], l, s₁, a, rfl, ?_, h⟩
    rw [run_liftM, hx]
    exact .ok s₁ a

/-- A call, then more. -/
theorem runsVia_call_bind_ok {q : Q} {f : A q → Async Q A ε π σ β} {l : List ((q : Q) × A q)}
    {s s' : σ} {b : β} :
    Proc.RunsVia ans (((Async.call q : Async Q A ε π σ (A q)) >>= f).run s) l (.ok s' b) ↔
      ∃ a l', ans q a ∧ l = ⟨q, a⟩ :: l' ∧ Proc.RunsVia ans ((f a).run s) l' (.ok s' b) :=
  Proc.runsVia_await

/-- An attempt makes the calls of the code and returns its value or its error. -/
theorem runsVia_attempt {x : Async Q A ε π σ α} {l : List ((q : Q) × A q)} {s s' : σ}
    {b : Except ε α} (h : Proc.RunsVia ans ((attempt x).run s) l (.ok s' b)) :
    (∃ a, b = .ok a ∧ Proc.RunsVia ans (x.run s) l (.ok s' a)) ∨
    (∃ e, b = .error e ∧ Proc.RunsVia ans (x.run s) l (.err s' e)) := by
  unfold attempt at h
  dsimp only at h
  generalize x.run s = p at h ⊢
  induction p generalizing l with
  | ok t a =>
    obtain ⟨rfl, hr⟩ := Proc.runsVia_ok.mp h
    cases hr
    exact .inl ⟨a, rfl, .ok _ a⟩
  | err t e =>
    obtain ⟨rfl, hr⟩ := Proc.runsVia_ok.mp h
    cases hr
    exact .inr ⟨e, rfl, .err _ e⟩
  | trap t =>
    obtain ⟨-, hr⟩ := Proc.runsVia_trap.mp h
    cases hr
  | await t q k ih =>
    obtain ⟨a, l', ha, rfl, hr⟩ := Proc.runsVia_await.mp h
    rcases ih a t hr with ⟨c, rfl, hrun⟩ | ⟨e, rfl, hrun⟩
    · exact .inl ⟨c, rfl, .await ha hrun⟩
    · exact .inr ⟨e, rfl, .await ha hrun⟩

end Async

/-! ### Amid other segments -/

namespace Proc

/-- `p` runs to `r` by the calls and answers in the list, resumed in whatever states. -/
inductive RunsAmid : Proc Q A ε π σ α → List ((q : Q) × A q) → Result ε π σ α → Prop
  | ok (s : σ) (a : α) : RunsAmid (.ok s a) [] (.ok s a)
  | err (s : σ) (e : ε) : RunsAmid (.err s e) [] (.err s e)
  | trap (p : π) : RunsAmid (.trap p) [] (.trap p)
  | await {s : σ} {q : Q} {k : A q → σ → Proc Q A ε π σ α} (a : A q) (s' : σ)
      {l : List ((q : Q) × A q)} {r : Result ε π σ α} :
      RunsAmid (k a s') l r → RunsAmid (.await s q k) (⟨q, a⟩ :: l) r

theorem runsAmid_err {s : σ} {e : ε} {l : List ((q : Q) × A q)} {r : Result ε π σ α} :
    RunsAmid (.err s e) l r ↔ l = [] ∧ r = .err s e :=
  ⟨fun h => by cases h; exact ⟨rfl, rfl⟩, fun ⟨hl, hr⟩ => hl ▸ hr ▸ .err s e⟩

theorem runsAmid_trap {t : π} {l : List ((q : Q) × A q)} {r : Result ε π σ α} :
    RunsAmid (.trap t) l r ↔ l = [] ∧ r = .trap t :=
  ⟨fun h => by cases h; exact ⟨rfl, rfl⟩, fun ⟨hl, hr⟩ => hl ▸ hr ▸ .trap t⟩

theorem runsAmid_await {s : σ} {q : Q} {k : A q → σ → Proc Q A ε π σ α}
    {l : List ((q : Q) × A q)} {r : Result ε π σ α} :
    RunsAmid (.await s q k) l r ↔ ∃ a s' l', l = ⟨q, a⟩ :: l' ∧ RunsAmid (k a s') l' r :=
  ⟨fun h => by cases h with | await a s' hr => exact ⟨a, s', _, rfl, hr⟩,
   fun ⟨a, s', _, hl, hr⟩ => hl ▸ .await a s' hr⟩

/-- A sequence makes the calls of its first part, and after its return those of the second. -/
theorem RunsAmid.of_bind {p : Proc Q A ε π σ α} {f : α → σ → Proc Q A ε π σ β}
    {l : List ((q : Q) × A q)} {r : Result ε π σ β} (h : RunsAmid (p.bind f) l r) :
    (∃ l₁ l₂ s a, l = l₁ ++ l₂ ∧ RunsAmid p l₁ (.ok s a) ∧ RunsAmid (f a s) l₂ r) ∨
    (∃ s e, r = .err s e ∧ RunsAmid p l (.err s e)) ∨
    ∃ t, r = .trap t ∧ RunsAmid p l (.trap t) := by
  induction p generalizing l with
  | ok s a => exact .inl ⟨[], l, s, a, rfl, .ok s a, h⟩
  | err s e =>
    obtain ⟨rfl, rfl⟩ := runsAmid_err.mp h
    exact .inr (.inl ⟨s, e, rfl, .err s e⟩)
  | trap t =>
    obtain ⟨rfl, rfl⟩ := runsAmid_trap.mp h
    exact .inr (.inr ⟨t, rfl, .trap t⟩)
  | await s q k ih =>
    obtain ⟨a, s', l', rfl, hr⟩ := runsAmid_await.mp h
    rcases ih a s' hr with ⟨l₁, l₂, s₁, b, rfl, h₁, h₂⟩ | ⟨s₁, e, rfl, h₁⟩ | ⟨t, rfl, h₁⟩
    · exact .inl ⟨⟨q, a⟩ :: l₁, l₂, s₁, b, rfl, .await a s' h₁, h₂⟩
    · exact .inr (.inl ⟨s₁, e, rfl, .await a s' h₁⟩)
    · exact .inr (.inr ⟨t, rfl, .await a s' h₁⟩)

end Proc

end Resumption
