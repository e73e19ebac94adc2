import RunesIndexer.Model.Canister
import RunesIndexer.Model.Stored
import Mathlib.Order.Bounds.Basic

/-! # The mint window

    The bounds of a mint as the terms state them, over all naturals: every one that is
    present has to be met. `mintable` combines them in pairs with saturating additions, and
    decides the same for every height of a block.
-/

namespace RunesIndexer

/-! ### Pairs of bounds -/

/-- The bounds that are present. -/
def present (a b : Option Nat) : Set Nat := fun n => a = some n ∨ b = some n

theorem mem_present {a b : Option Nat} {n : Nat} : n ∈ present a b ↔ a = some n ∨ b = some n :=
  Iff.rfl

/-- `zip`, `map` and the two `or` pick one of the bounds that are present. -/
theorem combineBounds_eq_some {pick : Nat → Nat → Nat} {R : Nat → Nat → Prop}
    (hrefl : ∀ n, R n n) (hpick : ∀ i j n, pick i j = n ↔ (i = n ∨ j = n) ∧ R i n ∧ R j n)
    {a b : Option Nat} {n : Nat} :
    combineBounds pick a b = some n ↔ n ∈ present a b ∧ ∀ m ∈ present a b, R m n := by
  simp only [mem_present]
  cases a with
  | none =>
    cases b with
    | none => simp [combineBounds]
    | some j =>
      simp only [combineBounds, Option.some.injEq, reduceCtorEq, false_or, forall_eq']
      exact ⟨fun h => ⟨h, h ▸ hrefl _⟩, fun h => h.1⟩
  | some i =>
    cases b with
    | none =>
      simp only [combineBounds, Option.some.injEq, reduceCtorEq, or_false, forall_eq']
      exact ⟨fun h => ⟨h, h ▸ hrefl _⟩, fun h => h.1⟩
    | some j =>
      simp only [combineBounds, Option.some.injEq, hpick]
      constructor
      · intro h
        refine ⟨h.1, fun m hm => ?_⟩
        rcases hm with rfl | rfl
        · exact h.2.1
        · exact h.2.2
      · intro h
        exact ⟨h.1, h.2 i (.inl rfl), h.2 j (.inr rfl)⟩

/-- With `max` it is the greatest ... -/
theorem combineBounds_max {a b : Option Nat} {n : Nat} :
    combineBounds max a b = some n ↔ IsGreatest (present a b) n :=
  combineBounds_eq_some le_refl fun i j n => by omega

/-- ... and with `min` the least. -/
theorem combineBounds_min {a b : Option Nat} {n : Nat} :
    combineBounds min a b = some n ↔ IsLeast (present a b) n :=
  combineBounds_eq_some (R := fun i j => j ≤ i) le_refl fun i j n => by omega

/-- A cap on the sums is a cap on what is picked. -/
theorem combineBounds_cap {pick : Nat → Nat → Nat} {cap : Nat}
    (hpick : ∀ i j, j ≤ cap → pick (min i cap) j = min (pick i j) cap) {a b : Option Nat}
    (hb : ∀ n, b = some n → n ≤ cap) :
    combineBounds pick (a.map (min · cap)) b = (combineBounds pick a b).map (min · cap) := by
  cases a with
  | none =>
    cases b with
    | none => rfl
    | some j => simp [combineBounds, hb j rfl]
  | some i =>
    cases b with
    | none => rfl
    | some j => simp [combineBounds, hpick i j (hb j rfl)]

/-! ### The bounds of an entry -/

namespace RuneEntry

/-- The lower bounds: the one relative to the etching and the absolute one. -/
def lower (e : RuneEntry) (t : Terms) : Set Nat :=
  present (t.offset.1.map (e.block + ·)) t.height.1

/-- The upper bounds. -/
def upper (e : RuneEntry) (t : Terms) : Set Nat :=
  present (t.offset.2.map (e.block + ·)) t.height.2

variable {e : RuneEntry} {t : Terms}

theorem start_eq_some (ht : e.terms = some t) (hfits : t.Fits) {n : Nat} :
    e.start = some n ↔ ∃ m, IsGreatest (e.lower t) m ∧ n = min m u64Max := by
  have hsums : t.offset.1.map (fun offset => saturatingAdd e.block offset) =
      (t.offset.1.map (e.block + ·)).map (min · u64Max) := by
    rw [Option.map_map]
    rfl
  unfold start
  rw [ht, Option.bind_some, hsums,
    combineBounds_cap (fun i j hj => by omega) hfits.height.1, Option.map_eq_some_iff]
  exact exists_congr fun m => and_congr combineBounds_max eq_comm

theorem end_eq_some (ht : e.terms = some t) (hfits : t.Fits) {n : Nat} :
    e.end = some n ↔ ∃ m, IsLeast (e.upper t) m ∧ n = min m u64Max := by
  have hsums : t.offset.2.map (fun offset => saturatingAdd e.block offset) =
      (t.offset.2.map (e.block + ·)).map (min · u64Max) := by
    rw [Option.map_map]
    rfl
  unfold «end»
  rw [ht, Option.bind_some, hsums,
    combineBounds_cap (fun i j hj => by omega) hfits.height.2, Option.map_eq_some_iff]
  exact exists_congr fun m => and_congr combineBounds_min eq_comm

/-! ### Heights and bounds -/

/-- Without a bound there is no start. -/
theorem start_eq_none (ht : e.terms = some t) (hs : e.start = none) (n : Nat) : n ∉ e.lower t := by
  have hnone : combineBounds max (t.offset.1.map (saturatingAdd e.block ·)) t.height.1 = none := by
    rw [← hs, start, ht]
    rfl
  intro hn
  rcases hn with hn | hn
  · obtain ⟨offset, ho, -⟩ := Option.map_eq_some_iff.mp hn
    rw [ho] at hnone
    cases hh : t.height.1 <;> simp [hh, combineBounds] at hnone
  · rw [hn] at hnone
    cases ho : t.offset.1 <;> simp [ho, combineBounds] at hnone

theorem end_eq_none (ht : e.terms = some t) (hs : e.end = none) (n : Nat) : n ∉ e.upper t := by
  have hnone : combineBounds min (t.offset.2.map (saturatingAdd e.block ·)) t.height.2 = none := by
    rw [← hs, «end», ht]
    rfl
  intro hn
  rcases hn with hn | hn
  · obtain ⟨offset, ho, -⟩ := Option.map_eq_some_iff.mp hn
    rw [ho] at hnone
    cases hh : t.height.2 <;> simp [hh, combineBounds] at hnone
  · rw [hn] at hnone
    cases ho : t.offset.2 <;> simp [ho, combineBounds] at hnone

/-- A height is below the greatest lower bound, or it has reached them all. -/
theorem start_cases (ht : e.terms = some t) (hfits : t.Fits) (height : Nat) :
    (∃ m, IsGreatest (e.lower t) m ∧ height < m) ∨ ∀ n ∈ e.lower t, n ≤ height := by
  cases hs : e.start with
  | none => exact .inr fun n hn => absurd hn (start_eq_none ht hs n)
  | some b =>
    obtain ⟨m, hm, -⟩ := (start_eq_some ht hfits).mp hs
    by_cases hlt : height < m
    · exact .inl ⟨m, hm, hlt⟩
    · exact .inr fun n hn => (hm.2 hn).trans (Nat.le_of_not_lt hlt)

/-- It has reached the least upper bound, or it is below them all. -/
theorem end_cases (ht : e.terms = some t) (hfits : t.Fits) (height : Nat) :
    (∃ m, IsLeast (e.upper t) m ∧ m ≤ height) ∨ ∀ n ∈ e.upper t, height < n := by
  cases hs : e.end with
  | none => exact .inr fun n hn => absurd hn (end_eq_none ht hs n)
  | some b =>
    obtain ⟨m, hm, -⟩ := (end_eq_some ht hfits).mp hs
    by_cases hle : m ≤ height
    · exact .inl ⟨m, hm, hle⟩
    · exact .inr fun n hn => (Nat.lt_of_not_le hle).trans_le (hm.2 hn)

/-! ### The decision -/

/-- What the terms say about a mint at `height`: the first obstacle, or the amount. -/
inductive MintOutcome (e : RuneEntry) (height : Nat) : Except MintError Nat → Prop
  | unmintable (hterms : e.terms = none) : MintOutcome e height (.error .unmintable)
  | start {t : Terms} {m : Nat} (hterms : e.terms = some t) (hm : IsGreatest (e.lower t) m)
      (hlt : height < m) : MintOutcome e height (.error (.start (min m u64Max)))
  | end {t : Terms} {m : Nat} (hterms : e.terms = some t) (hlower : ∀ n ∈ e.lower t, n ≤ height)
      (hm : IsLeast (e.upper t) m) (hle : m ≤ height) :
      MintOutcome e height (.error (.end (min m u64Max)))
  | cap {t : Terms} (hterms : e.terms = some t) (hlower : ∀ n ∈ e.lower t, n ≤ height)
      (hupper : ∀ n ∈ e.upper t, height < n) (hcap : t.cap.getD 0 ≤ e.mints) :
      MintOutcome e height (.error (.cap (t.cap.getD 0)))
  | ok {t : Terms} (hterms : e.terms = some t) (hlower : ∀ n ∈ e.lower t, n ≤ height)
      (hupper : ∀ n ∈ e.upper t, height < n) (hcap : e.mints < t.cap.getD 0) :
      MintOutcome e height (.ok (t.amount.getD 0))

variable {height : Nat}

/-- Behind the start bound. -/
theorem mintable_eq_afterStart (ht : e.terms = some t)
    (hstart : ∀ n, e.start = some n → n ≤ height) :
    e.mintable height = mintable.afterStart e height t := by
  unfold mintable
  rw [ht]
  cases hs : e.start with
  | none => rfl
  | some n =>
    have hle := hstart n hs
    show (if height < n then _ else _) = _
    rw [if_neg (by omega)]

/-- Behind the end bound. -/
theorem afterStart_eq_afterEnd (hend : ∀ n, e.end = some n → height < n) :
    mintable.afterStart e height t = mintable.afterEnd e t := by
  unfold mintable.afterStart
  cases hs : e.end with
  | none => rfl
  | some n =>
    have hlt := hend n hs
    show (if height ≥ n then _ else _) = _
    rw [if_neg (by omega)]

theorem start_le (ht : e.terms = some t) (hfits : t.Fits) (hlower : ∀ n ∈ e.lower t, n ≤ height)
    (n : Nat) (hn : e.start = some n) : n ≤ height := by
  obtain ⟨m, hm, rfl⟩ := (start_eq_some ht hfits).mp hn
  have := hlower m hm.1
  omega

theorem lt_end (ht : e.terms = some t) (hfits : t.Fits) (hheight : height < u64Max)
    (hupper : ∀ n ∈ e.upper t, height < n) (n : Nat) (hn : e.end = some n) : height < n := by
  obtain ⟨m, hm, rfl⟩ := (end_eq_some ht hfits).mp hn
  have := hupper m hm.1
  omega

/-- What the terms say is what `mintable` finds: the obstacles exclude each other. -/
theorem MintOutcome.mintable_eq {r : Except MintError Nat}
    (hfits : ∀ t, e.terms = some t → t.Fits) (hheight : height < u64Max)
    (h : MintOutcome e height r) : e.mintable height = r := by
  cases h with
  | unmintable hterms =>
    unfold mintable
    rw [hterms]
  | start hterms hm hlt =>
    have hs := (start_eq_some hterms (hfits _ hterms)).mpr ⟨_, hm, rfl⟩
    unfold mintable
    rw [hterms, hs]
    exact if_pos (by omega)
  | «end» hterms hlower hm hle =>
    have hs := (end_eq_some hterms (hfits _ hterms)).mpr ⟨_, hm, rfl⟩
    rw [mintable_eq_afterStart hterms (start_le hterms (hfits _ hterms) hlower)]
    unfold mintable.afterStart
    rw [hs]
    exact if_pos (show height ≥ min _ u64Max by omega)
  | cap hterms hlower hupper hcap =>
    rw [mintable_eq_afterStart hterms (start_le hterms (hfits _ hterms) hlower),
      afterStart_eq_afterEnd (lt_end hterms (hfits _ hterms) hheight hupper)]
    exact if_pos hcap
  | ok hterms hlower hupper hcap =>
    rw [mintable_eq_afterStart hterms (start_le hterms (hfits _ hterms) hlower),
      afterStart_eq_afterEnd (lt_end hterms (hfits _ hterms) hheight hupper)]
    exact if_neg (by omega)

/-- ... and one of them always applies. -/
theorem exists_outcome (hfits : ∀ t, e.terms = some t → t.Fits) (height : Nat) :
    ∃ r, MintOutcome e height r := by
  cases ht : e.terms with
  | none => exact ⟨_, .unmintable ht⟩
  | some t =>
    rcases start_cases ht (hfits t ht) height with ⟨m, hm, hlt⟩ | hlower
    · exact ⟨_, .start ht hm hlt⟩
    rcases end_cases ht (hfits t ht) height with ⟨m, hm, hle⟩ | hupper
    · exact ⟨_, .end ht hlower hm hle⟩
    by_cases hcap : t.cap.getD 0 ≤ e.mints
    · exact ⟨_, .cap ht hlower hupper hcap⟩
    · exact ⟨_, .ok ht hlower hupper (by omega)⟩

/-- At the height of a block `mintable` returns what the terms say, and nothing else. -/
theorem mintable_iff (e : RuneEntry) (height : Nat) (hfits : ∀ t, e.terms = some t → t.Fits)
    (hheight : height < 2 ^ 32) (r : Except MintError Nat) :
    e.mintable height = r ↔ MintOutcome e height r := by
  have hlt : height < u64Max := hheight.trans (by decide)
  constructor
  · intro h
    obtain ⟨r', hr'⟩ := exists_outcome hfits height
    rwa [← h, hr'.mintable_eq hfits hlt]
  · intro h
    exact h.mintable_eq hfits hlt

/-- The mint of `UNCOMMON•GOODS` opens at its start height. -/
theorem mintable_iff_sample :
    MintOutcome Store.uncommonGoodsEntry 840000 (.ok 1) ∧
    MintOutcome Store.uncommonGoodsEntry 839999 (.error (.start 840000)) := by
  have hfits : ∀ t, Store.uncommonGoodsEntry.terms = some t → t.Fits := by
    intro t ht
    cases ht
    exact ⟨by simp [u128Bound], by simp [u128Bound], by simp [u64Max, Store.subsidyHalvingInterval],
      by simp [u64Max]⟩
  exact ⟨(mintable_iff _ 840000 hfits (by decide) (.ok 1)).mp (by decide),
    (mintable_iff _ 839999 hfits (by decide) (.error (.start 840000))).mp (by decide)⟩

end RuneEntry

end RunesIndexer
