import Mathlib.Logic.Hydra
import RunesIndexer.Lib.Resumption

/-! # Work that runs out

    A system holds a multiset of programs. A step takes one of them away and puts back
    finitely many that have less left to do, or it leaves all of them as they are. No
    matter in which order this happens, from some step on nothing is taken away any more
    (`Relation.CutExpand` is Mathlib's hydra).

    Programs have less and less to do: an execution tree has no infinite path, so it comes
    to an end after finitely many answers, whatever these are.
-/

namespace Drain

variable {L : Type} {r : L → L → Prop}

/-- A sequence that only stays or descends comes to rest. -/
theorem stabilizes (hr : WellFounded r) {f : Nat → L}
    (h : ∀ n, f (n + 1) = f n ∨ r (f (n + 1)) (f n)) : ∃ n, ∀ k, n ≤ k → f k = f n := by
  -- by induction on the value, for every position that has it
  have hfrom : ∀ a n, f n = a → ∃ n', ∀ k, n' ≤ k → f k = f n' := by
    intro a
    induction a using hr.induction with
    | _ a ih =>
      intro n hn
      by_cases hrest : ∀ k, n ≤ k → f k = a
      · refine ⟨n, fun k hk => ?_⟩
        rw [hrest k hk, hn]
      · -- the first step away from `a`
        have hleave : ∃ k, n ≤ k ∧ f k = a ∧ f (k + 1) ≠ a := by
          by_contra hno
          apply hrest
          intro k hk
          induction k, hk using Nat.le_induction with
          | base => exact hn
          | succ k hk ihk =>
            by_contra hne
            exact hno ⟨k, hk, ihk, hne⟩
        obtain ⟨k, -, hk, hne⟩ := hleave
        rcases h k with heq | hlt
        · exact absurd (heq.trans hk) hne
        · rw [hk] at hlt
          exact ih _ hlt (k + 1) rfl
  exact hfrom _ 0 rfl

/-- The programs that a system holds come to rest. -/
theorem cutExpand_stabilizes (hr : WellFounded r) (held : Nat → Multiset L)
    (h : ∀ n, held (n + 1) = held n ∨ Relation.CutExpand r (held (n + 1)) (held n)) :
    ∃ n, ∀ k, n ≤ k → held k = held n :=
  stabilizes hr.cutExpand h

/-- A step that takes a program away changes what is held. -/
theorem ne_of_cutExpand (hr : WellFounded r) {held held' : Multiset L}
    (h : Relation.CutExpand r held' held) : held' ≠ held := by
  intro heq
  rw [heq] at h
  exact hr.cutExpand.irrefl.irrefl held h

/-- One program is taken away, and some that have less to do come in. -/
theorem cutExpand_cons {a : L} {rest l : Multiset L} (hl : ∀ b ∈ l, r b a) :
    Relation.CutExpand r (rest + l) (a ::ₘ rest) := by
  refine ⟨l, a, hl, ?_⟩
  rw [Multiset.cons_add, add_comm, Multiset.singleton_add]

/-- The program at a position of a list, and the others. -/
theorem coe_eraseIdx {l : List L} {i : Nat} {a : L} (h : l[i]? = some a) :
    (l : Multiset L) = a ::ₘ (l.eraseIdx i : Multiset L) := by
  obtain ⟨hi, rfl⟩ := List.getElem?_eq_some_iff.mp h
  exact (Multiset.coe_eq_coe.mpr (List.getElem_cons_eraseIdx_perm hi)).symm

end Drain

namespace Resumption

variable {Q : Type} {A : Q → Type} {ε π σ α : Type}

/-- An answer to the call that one program waits for leaves the other, which waits again.
    The states they are published with do not matter. -/
inductive Proc.Later : Proc Q A ε π σ α → Proc Q A ε π σ α → Prop
  | mk {s t s' t' : σ} {q q' : Q} {k : A q → σ → Proc Q A ε π σ α}
      {k' : A q' → σ → Proc Q A ε π σ α} {a : A q} (h : k a s = .await t q' k') :
      Proc.Later (.await t' q' k') (.await s' q k)

/-- Answers run out. -/
theorem Proc.later_wf : WellFounded (Proc.Later (Q := Q) (A := A) (ε := ε) (π := π) (σ := σ)
    (α := α)) := by
  have hacc : ∀ p : Proc Q A ε π σ α, ∀ s q k, p = .await s q k →
      ∀ s', Acc Proc.Later (Proc.await s' q k : Proc Q A ε π σ α) := by
    intro p
    induction p with
    | ok s a => exact fun _ _ _ h => nomatch h
    | err s e => exact fun _ _ _ h => nomatch h
    | trap t => exact fun _ _ _ h => nomatch h
    | await s q k ih =>
      intro s₁ q₁ k₁ h s'
      cases h
      refine ⟨_, fun p' hp' => ?_⟩
      cases hp' with
      | mk hk => exact ih _ _ _ _ _ hk _
  refine ⟨fun p => ?_⟩
  cases p with
  | ok s a => exact ⟨_, fun _ h => nomatch h⟩
  | err s e => exact ⟨_, fun _ h => nomatch h⟩
  | trap t => exact ⟨_, fun _ h => nomatch h⟩
  | await s q k => exact hacc _ s q k rfl s

end Resumption
