import RunesIndexer.Lib.Monitor

/-! # What a program leaves alone

    `f` reads a part of the state that the program does not write, while others may.
    `Proc.Leaves f R w p` says that every segment of `p` leaves this part as it finds it,
    `w` being what the first one finds, and that `R` holds where `p` returns. So what the
    last segment knows of this part when it returns is up to date.
-/

namespace Resumption

variable {Q : Type} {A : Q → Type} {ε π σ ω α β : Type} {f : σ → ω} {R : σ → α → Prop}
  {S : σ → β → Prop}

/-- No segment writes what `f` reads, and where the program returns `R` holds. -/
def Proc.Leaves (f : σ → ω) (R : σ → α → Prop) : ω → Proc Q A ε π σ α → Prop
  | w, .ok s a => f s = w ∧ R s a
  | w, .err s _ => f s = w
  | _, .trap _ => True
  | w, .await s _ k => f s = w ∧ ∀ a s', (k a s').Leaves f R (f s')

/-- Code without calls that does not write what `f` reads. -/
def Sync.Leaves (f : σ → ω) (x : Sync ε π σ α) : Prop :=
  ∀ w, x.Maintains (fun s => f s = w) fun _ => True

/-- Code with calls, of which no segment writes what `f` reads. -/
def Async.Leaves (f : σ → ω) (R : σ → α → Prop) (x : Async Q A ε π σ α) : Prop :=
  ∀ s, (x.run s).Leaves f R (f s)

/-! ### Programs -/

namespace Proc.Leaves

theorem bind {p : Proc Q A ε π σ α} {g : α → σ → Proc Q A ε π σ β} {w : ω}
    (h : p.Leaves f R w) (hg : ∀ a s, R s a → (g a s).Leaves f S (f s)) :
    (p.bind g).Leaves f S w := by
  induction p generalizing w with
  | ok s a =>
    obtain ⟨rfl, ha⟩ := h
    exact hg a s ha
  | err s e => exact h
  | trap p => trivial
  | await s q k ih => exact ⟨h.1, fun a s' => ih a s' (h.2 a s')⟩

theorem attempt {p : Proc Q A ε π σ α} {w : ω} (h : p.Leaves f R w) :
    (Async.attemptProc p).Leaves f (fun _ _ => True) w := by
  induction p generalizing w with
  | ok s a => exact ⟨h.1, trivial⟩
  | err s e => exact ⟨h, trivial⟩
  | trap p => trivial
  | await s q k ih => exact ⟨h.1, fun a s' => ih a s' (h.2 a s')⟩

end Proc.Leaves

/-! ### Code without calls -/

namespace Sync.Leaves

theorem pure (a : α) : (Pure.pure a : Sync ε π σ α).Leaves f := fun _ => .pure trivial

theorem bind {x : Sync ε π σ α} {g : α → Sync ε π σ β} (hx : x.Leaves f)
    (hg : ∀ a, (g a).Leaves f) : (x >>= g).Leaves f :=
  fun w => .bind (hx w) fun a _ => hg a w

theorem gets (g : σ → α) : (Sync.gets g : Sync ε π σ α).Leaves f := by
  intro w
  exact .gets fun _ _ => trivial

theorem modify {g : σ → σ} (h : ∀ s, f (g s) = f s) :
    (Sync.modify g : Sync ε π σ Unit).Leaves f := by
  intro w
  exact .modify fun s hs => (h s).trans hs

theorem fail (e : ε) : (Sync.fail e : Sync ε π σ α).Leaves f := fun _ => .fail e

theorem ofExcept (x : Except π α) : (liftM x : Sync ε π σ α).Leaves f := by
  intro w
  exact .ofExcept fun _ _ => trivial

theorem foldlM {g : β → α → Sync ε π σ β} (hg : ∀ b a, (g b a).Leaves f) (l : List α) (b : β) :
    (l.foldlM g b).Leaves f := by
  intro w
  exact .foldlM (S := fun _ => True) trivial fun a _ b _ => hg b a w

theorem forM {g : α → Sync ε π σ Unit} (hg : ∀ a, (g a).Leaves f) (l : List α) :
    (l.forM g).Leaves f := by
  intro w
  exact .forM fun a _ => hg a w

end Sync.Leaves

/-! ### Code with calls -/

namespace Async.Leaves

theorem pure {a : α} (h : ∀ s, R s a) : (Pure.pure a : Async Q A ε π σ α).Leaves f R :=
  fun s => ⟨rfl, h s⟩

theorem bind {x : Async Q A ε π σ α} {g : α → Async Q A ε π σ β}
    (hx : x.Leaves f fun _ _ => True) (hg : ∀ a, (g a).Leaves f S) : (x >>= g).Leaves f S := by
  intro s
  rw [run_bind]
  exact (hx s).bind fun a s' _ => hg a s'

theorem lift {x : Sync ε π σ α} (h : x.Leaves f) :
    (liftM x : Async Q A ε π σ α).Leaves f fun _ _ => True := by
  intro s
  have hrun := h (f s) s rfl
  rw [run_liftM]
  cases hx : x.run s with
  | ok s' a =>
    rw [hx] at hrun
    exact ⟨hrun.1, trivial⟩
  | err s' e =>
    rw [hx] at hrun
    exact hrun
  | trap p => trivial

theorem ofExcept (x : Except π α) : (liftM x : Async Q A ε π σ α).Leaves f fun _ _ => True :=
  .lift (Sync.Leaves.ofExcept x)

theorem call (q : Q) : (Async.call q : Async Q A ε π σ (A q)).Leaves f fun _ _ => True :=
  fun _ => ⟨rfl, fun _ _ => ⟨rfl, trivial⟩⟩

theorem attempt {x : Async Q A ε π σ α} (h : x.Leaves f R) :
    (Async.attempt x).Leaves f fun _ _ => True :=
  fun s => (h s).attempt

end Async.Leaves

end Resumption
