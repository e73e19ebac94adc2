import RunesIndexer.Lib.Resumption

/-! # Carrying out calls

    A program makes calls of one kind, and a handler carries out each of them as a program
    that makes more basic calls. `Proc.interpret` puts the two together.

    * `Proc.RunsAt ans p r`: an undisturbed execution whose answers may depend on the state
      that is committed when the call is made.
    * `Handler.Offers low H s q a`: against an environment `low` of the basic calls, the
      handler may answer `q` with `a` in the state `s`.
    * `Proc.runs_interpret`: the executions of the interpreted program are those of the
      program under what its handler offers, and those that end inside the handler.

    A handler may also be cut short, which is how a loop without an end is written with fuel.
-/

namespace Resumption

variable {Q Q' : Type} {A : Q → Type} {A' : Q' → Type} {ε π σ α β : Type}

/-! ### Answers that depend on the state -/

namespace Proc

/-- `p` runs to `r`, each call answered as `ans` allows in the state committed then. -/
inductive RunsAt (ans : σ → (q : Q) → A q → Prop) : Proc Q A ε π σ α → Result ε π σ α → Prop
  | ok (s : σ) (a : α) : RunsAt ans (.ok s a) (.ok s a)
  | err (s : σ) (e : ε) : RunsAt ans (.err s e) (.err s e)
  | trap (p : π) : RunsAt ans (.trap p) (.trap p)
  | await {s : σ} {q : Q} {k : A q → σ → Proc Q A ε π σ α} {a : A q} {r : Result ε π σ α} :
      ans s q a → RunsAt ans (k a s) r → RunsAt ans (.await s q k) r

/-- An execution of `p` stops at the call `q` with `s` committed. -/
inductive StopsAt (ans : σ → (q : Q) → A q → Prop) : Proc Q A ε π σ α → σ → Q → Prop
  | here {s : σ} {q : Q} {k : A q → σ → Proc Q A ε π σ α} : StopsAt ans (.await s q k) s q
  | later {s s' : σ} {q q' : Q} {k : A q → σ → Proc Q A ε π σ α} {a : A q} :
      ans s q a → StopsAt ans (k a s) s' q' → StopsAt ans (.await s q k) s' q'

variable {ans : σ → (q : Q) → A q → Prop}

/-- Forget where the answers came from. -/
theorem RunsAt.runs {ans' : (q : Q) → A q → Prop} (hle : ∀ s q a, ans s q a → ans' q a)
    {p : Proc Q A ε π σ α} {r : Result ε π σ α} (h : RunsAt ans p r) : Runs ans' p r := by
  induction h with
  | ok s a => exact .ok s a
  | err s e => exact .err s e
  | trap p => exact .trap p
  | await ha _ ih => exact .await (hle _ _ _ ha) ih

theorem StopsAt.awaits {ans' : (q : Q) → A q → Prop} (hle : ∀ s q a, ans s q a → ans' q a)
    {p : Proc Q A ε π σ α} {s : σ} {q : Q} (h : StopsAt ans p s q) : Awaits ans' p s := by
  induction h with
  | here => exact .here
  | later ha _ ih => exact .later (hle _ _ _ ha) ih

end Proc

/-! ### Handlers -/

/-- A program for each call. It returns an answer, or nothing when it was cut short. -/
abbrev Handler (Q : Type) (A : Q → Type) (Q' : Type) (A' : Q' → Type) (π σ : Type) : Type :=
  (q : Q) → Async Q' A' Empty π σ (Option (A q))

/-- The program with its calls carried out. Its error, if it has one, becomes a value. -/
def Proc.interpret (H : Handler Q A Q' A' π σ) :
    Proc Q A ε π σ α → Proc Q' A' Empty π σ (Option (Except ε α))
  | .ok s a => .ok s (some (.ok a))
  | .err s e => .ok s (some (.error e))
  | .trap p => .trap p
  | .await s q k => ((H q).run s).bind fun answer s' =>
      answer.elim (.ok s' none) fun a => (k a s').interpret H

theorem Proc.interpret_await (H : Handler Q A Q' A' π σ) (s : σ) (q : Q)
    (k : A q → σ → Proc Q A ε π σ α) :
    (Proc.await s q k).interpret H = ((H q).run s).bind fun answer s' =>
      answer.elim (.ok s' none) fun a => (k a s').interpret H := rfl

/-- The result of a program as one of the interpreted program. -/
def Result.handled : Result ε π σ α → Result Empty π σ (Option (Except ε α))
  | .ok s a => .ok s (some (.ok a))
  | .err s e => .ok s (some (.error e))
  | .trap p => .trap p

theorem Result.handled_eq_ok {r : Result ε π σ α} {s : σ} {a : α} :
    r.handled = .ok s (some (.ok a)) ↔ r = .ok s a := by
  cases r <;> simp [Result.handled]

namespace Handler

variable {H : Handler Q A Q' A' π σ} {low : (q : Q') → A' q → Prop}

/-- No call writes to the state. -/
def ReadOnly (H : Handler Q A Q' A' π σ) : Prop := ∀ q, (H q).ReadOnly

/-- In the state `s` the handler may answer `q` with `a`. -/
def Offers (low : (q : Q') → A' q → Prop) (H : Handler Q A Q' A' π σ) (s : σ) (q : Q)
    (a : A q) : Prop :=
  Proc.Runs low ((H q).run s) (.ok s (some a))

/-- In the state `s` the handler of `q` may end with `r`, which is no answer: a trap, or a cut. -/
inductive BreaksOff (low : (q : Q') → A' q → Prop) (H : Handler Q A Q' A' π σ) (s : σ) (q : Q)
    {β : Type} : Result Empty π σ (Option β) → Prop
  | trap {t : π} (h : Proc.Runs low ((H q).run s) (.trap t)) : BreaksOff low H s q (.trap t)
  | cut (h : Proc.Runs low ((H q).run s) (.ok s none)) : BreaksOff low H s q (.ok s none)

end Handler

open Handler

/-- What an interpreted program runs to: what the program does under the answers that its
    handler offers, or what breaks off the handler at a call. -/
theorem Proc.runs_interpret {H : Handler Q A Q' A' π σ} (hH : H.ReadOnly)
    {low : (q : Q') → A' q → Prop} {p : Proc Q A ε π σ α}
    {r : Result Empty π σ (Option (Except ε α))} :
    Runs low (p.interpret H) r ↔
      (∃ r₁, RunsAt (Offers low H) p r₁ ∧ r = r₁.handled) ∨
      ∃ s q, StopsAt (Offers low H) p s q ∧ BreaksOff low H s q r := by
  constructor
  · intro h
    induction p with
    | ok s a => exact .inl ⟨_, .ok s a, runs_ok.mp h⟩
    | err s e => exact .inl ⟨_, .err s e, runs_ok.mp h⟩
    | trap t => exact .inl ⟨_, .trap t, runs_trap.mp h⟩
    | await s q k ih =>
      rw [interpret_await] at h
      rcases runs_bind.mp h with ⟨s₁, answer, hhandler, hrest⟩ | ⟨_, e, -, -⟩ | ⟨t, rfl, htrap⟩
      · -- the handler writes nothing, so the program goes on in the state of its call
        obtain rfl := (hH q).ok hhandler
        cases answer with
        | none =>
          obtain rfl := runs_ok.mp hrest
          exact .inr ⟨_, q, .here, .cut hhandler⟩
        | some a =>
          rcases ih a _ hrest with ⟨r₁, hr₁, rfl⟩ | ⟨s', q', hstop, hbreak⟩
          · exact .inl ⟨r₁, .await hhandler hr₁, rfl⟩
          · exact .inr ⟨s', q', .later hhandler hstop, hbreak⟩
      · exact e.elim
      · exact .inr ⟨s, q, .here, .trap htrap⟩
  · rintro (⟨r₁, hr₁, rfl⟩ | ⟨s, q, hstop, hbreak⟩)
    · induction hr₁ with
      | ok s a => exact .ok s _
      | err s e => exact .ok s _
      | trap t => exact .trap t
      | await ha _ ih =>
        rw [interpret_await]
        exact runs_bind.mpr (.inl ⟨_, some _, ha, ih⟩)
    · induction hstop with
      | here =>
        rw [interpret_await]
        cases hbreak with
        | trap h => exact runs_bind_trap.mpr (.inl h)
        | cut h => exact runs_bind_ok.mpr ⟨_, none, h, .ok _ _⟩
      | later ha _ ih =>
        rw [interpret_await]
        exact runs_bind.mpr (.inl ⟨_, some _, ha, ih hbreak⟩)

section

variable {H : Handler Q A Q' A' π σ} {low : (q : Q') → A' q → Prop} {p : Proc Q A ε π σ α}

/-- It returns when the program does. -/
theorem Proc.runs_interpret_ok (hH : H.ReadOnly) {s : σ} {a : α} :
    Runs low (p.interpret H) (.ok s (some (.ok a))) ↔ RunsAt (Offers low H) p (.ok s a) := by
  rw [runs_interpret hH]
  constructor
  · rintro (⟨r₁, hr₁, hr⟩ | ⟨_, _, -, hbreak⟩)
    · rwa [Result.handled_eq_ok.mp hr.symm] at hr₁
    · cases hbreak
  · exact fun h => .inl ⟨_, h, rfl⟩

/-- Where it stops, the program has stopped at a call whose handler waits. -/
theorem Proc.awaits_interpret (hH : H.ReadOnly) {s : σ} :
    Awaits low (p.interpret H) s ↔
      ∃ q, StopsAt (Offers low H) p s q ∧ Awaits low ((H q).run s) s := by
  constructor
  · intro h
    induction p with
    | ok s a => cases h
    | err s e => cases h
    | trap t => cases h
    | await s₁ q k ih =>
      rw [interpret_await] at h
      rcases awaits_bind.mp h with h | ⟨s₂, answer, hhandler, hrest⟩
      · -- it waits in the handler of this call, or behind it
        obtain rfl := (hH q).awaits low _ _ h
        exact ⟨q, .here, h⟩
      · obtain rfl := (hH q).ok hhandler
        cases answer with
        | none => cases hrest
        | some a =>
          obtain ⟨q', hstop, hawait⟩ := ih a _ hrest
          exact ⟨q', .later hhandler hstop, hawait⟩
  · rintro ⟨q, hstop, hawait⟩
    induction hstop with
    | here =>
      rw [interpret_await]
      exact awaits_bind.mpr (.inl hawait)
    | later ha _ ih =>
      rw [interpret_await]
      exact awaits_bind.mpr (.inr ⟨_, some _, ha, ih hawait⟩)

/-- An interpreted program without writes writes nothing. -/
theorem Async.ReadOnly.interpret {x : Async Q A ε π σ α} (hx : x.ReadOnly) (hH : H.ReadOnly) :
    (⟨fun s => (x.run s).interpret H⟩ : Async Q' A' Empty π σ (Option (Except ε α))).ReadOnly where
  runs low s r h := by
    have hany : ∀ s q a, Offers low H s q a → (fun (_ : Q) (_ : A _) => True) q a :=
      fun _ _ _ _ => trivial
    rcases (Proc.runs_interpret hH).mp h with ⟨r₁, hr₁, rfl⟩ | ⟨s', q, hstop, hbreak⟩
    · have hkeeps := hx.runs _ s _ (hr₁.runs hany)
      cases r₁ <;> exact hkeeps
    · obtain rfl := hx.awaits _ s s' (hstop.awaits hany)
      cases hbreak <;> first | rfl | trivial
  awaits low s s' h := by
    obtain ⟨q, hstop, -⟩ := (Proc.awaits_interpret hH).mp h
    exact hx.awaits (fun _ _ => True) s s' (hstop.awaits fun _ _ _ _ => trivial)

end

end Resumption
