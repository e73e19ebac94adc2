import RunesIndexer.Spec.History
import RunesIndexer.Spec.Phases

/-! # Mint counts

    The count of mints in a rune entry has a closed form over the held chain: the
    transactions after the etching that try to mint the rune inside its window,
    cut off at the cap.
-/

namespace RunesIndexer

open Resumption MonadicFold RuneUpdater

/-! ### The mint window -/

/-- `height` is in `[start(), end())`; an absent bound does not bound. -/
def RuneEntry.inWindow (e : RuneEntry) (height : Nat) : Bool :=
  e.start.all (· ≤ height) && e.end.all (height < ·)

/-- An entry can be minted when it has terms, in its window and below its cap. -/
theorem RuneEntry.mintable_eq_ok {e : RuneEntry} {height n : Nat} :
    e.mintable height = .ok n ↔
      e.terms.isSome ∧ e.inWindow height ∧ e.mints < e.mintCap ∧ n = e.mintAmount := by
  unfold mintable inWindow mintCap mintAmount
  cases hterms : e.terms with
  | none => simp
  | some terms =>
    -- from the last check backwards: the cap, the end, the start
    have hcap : (mintable.afterEnd e terms = .ok n) ↔
        e.mints < terms.cap.getD 0 ∧ n = terms.amount.getD 0 := by
      unfold mintable.afterEnd
      dsimp only
      split
      · next h => simp only [reduceCtorEq, false_iff, not_and]; omega
      · next h => simp only [Except.ok.injEq, eq_comm, ge_iff_le, not_le] at *; simp [h]
    have hend : (mintable.afterStart e height terms = .ok n) ↔
        e.end.all (height < ·) = true ∧ e.mints < terms.cap.getD 0 ∧
          n = terms.amount.getD 0 := by
      unfold mintable.afterStart
      cases he : e.end with
      | none => simpa using hcap
      | some d =>
        by_cases hd : d ≤ height
        · simp [hd]
        · simp [hd, hcap, Nat.lt_of_not_le hd]
    cases hs : e.start with
    | none => simpa using hend
    | some st =>
      by_cases hst : height < st
      · simp [hst]
      · simp [hst, hend, Nat.le_of_not_lt hst]

/-! ### Attempts -/

/-- `d` tries to mint the rune of `id` after its etching and inside the window of `e`. -/
def attemptsMint (lib : Crates) (id : RuneId) (e : RuneEntry) (d : Located) : Bool :=
  decide (id.Precedes d.id) && decide ((lib.decipher d.tx).bind Artifact.mint = some id) &&
    e.inWindow d.id.block

/-- The number of such transactions. -/
def mintAttempts (lib : Crates) (done : List Located) (id : RuneId) (e : RuneEntry) : Nat :=
  done.countP (attemptsMint lib id e)

/-- The count of mints that an entry should have. -/
def expectedMints (lib : Crates) (done : List Located) (id : RuneId) (e : RuneEntry) : Nat :=
  if e.terms.isSome then min e.mintCap (mintAttempts lib done id e) else 0

/-- Every entry was etched by a transaction done, and counts its mints right. -/
def MintsExact (lib : Crates) (done : List Located) (L : Ledger) : Prop :=
  ∀ id e, L.entries.get? id = some e →
    (∃ d ∈ done, d.id = id ∧ d.txid = e.etching) ∧ e.mints = expectedMints lib done id e

/-- Changing a burned count keeps the mints exact. -/
theorem MintsExact.burn {lib : Crates} {done : List Located} {L : Ledger}
    (h : MintsExact lib done L) {id : RuneId} {e : RuneEntry} (n : Nat)
    (he : L.entries.get? id = some e) :
    MintsExact lib done { L with entries := L.entries.insert id { e with burned := n }.reload } := by
  intro id' e' he'
  dsimp only at he'
  rw [FinMap.get?_insert] at he'
  split at he'
  · next heq =>
    cases he'
    subst heq
    exact h id' e he
  · exact h id' e' he'

theorem mintAttempts_append (lib : Crates) (done : List Located) (d : Located) (id : RuneId)
    (e : RuneEntry) :
    mintAttempts lib (done ++ [d]) id e =
      mintAttempts lib done id e + if attemptsMint lib id e d then 1 else 0 := by
  unfold mintAttempts
  rw [List.countP_append, List.countP_singleton]

/-- One more transaction changes the expected count only if it tries to mint. -/
theorem expectedMints_append {lib : Crates} {done : List Located} {d : Located} {id : RuneId}
    {e : RuneEntry} (h : attemptsMint lib id e d = false) :
    expectedMints lib (done ++ [d]) id e = expectedMints lib done id e := by
  unfold expectedMints
  rw [mintAttempts_append, h]
  rfl

/-! ### One transaction -/

section transaction

variable {lib : Crates} {done : List Located} {d : Located} {L L' : Ledger} {t t' : LotMap}
  {u u' : RuneUpdater}

/-- A refused mint is one that the closed form does not count either. -/
theorem expectedMints_refused {id : RuneId} {e : RuneEntry}
    (hexact : e.mints = expectedMints lib done id e)
    (hrefused : ∀ n, e.mintable d.id.block ≠ .ok n) :
    expectedMints lib (done ++ [d]) id e = expectedMints lib done id e := by
  by_cases hterms : e.terms.isSome
  · by_cases hwin : e.inWindow d.id.block = true
    · -- in the window, so the cap is used up
      have hcap : e.mintCap ≤ e.mints := by
        by_contra hlt
        exact hrefused _ (RuneEntry.mintable_eq_ok.mpr ⟨hterms, hwin, Nat.lt_of_not_le hlt, rfl⟩)
      unfold expectedMints at *
      rw [if_pos hterms] at *
      rw [mintAttempts_append]
      split <;> omega
    · refine expectedMints_append ?_
      simp [attemptsMint, hwin]
  · simp [expectedMints, hterms]

/-- The mint of a transaction is counted. -/
theorem MintsExact.mint {tx : Transaction} (hd : d.tx = tx) (hheight : u.height = d.id.block)
    (h : MintsExact lib done L)
    (hbefore : ∀ id e, L.entries.get? id = some e → id.Precedes d.id)
    (hstep : Mint lib tx (L, t, u) (L', t', u')) : MintsExact lib (done ++ [d]) L' := by
  have hetched : ∀ {e : RuneEntry} {id : RuneId}, (∃ d ∈ done, d.id = id ∧ d.txid = e.etching) →
      ∃ d' ∈ done ++ [d], d'.id = id ∧ d'.txid = e.etching := by
    rintro e id ⟨d', hd', hpos⟩
    exact ⟨d', List.mem_append_left _ hd', hpos⟩
  -- a rune that the transaction does not mint has the same attempts as before
  have hother : ∀ {id e}, L.entries.get? id = some e →
      (lib.decipher tx).bind Artifact.mint ≠ some id →
      (∃ d' ∈ done ++ [d], d'.id = id ∧ d'.txid = e.etching) ∧
        e.mints = expectedMints lib (done ++ [d]) id e := by
    intro id e he hne
    obtain ⟨hpos, hexact⟩ := h id e he
    refine ⟨hetched hpos, ?_⟩
    rw [expectedMints_append (by simp [attemptsMint, hd, hne])]
    exact hexact
  cases hstep with
  | absent hno =>
    intro id e he
    refine hother he fun hmint => ?_
    obtain ⟨artifact, hdec, hmint⟩ := Option.bind_eq_some_iff.mp hmint
    rw [hno artifact hdec] at hmint
    cases hmint
  | @refused _ _ _ artifact id hdec hmint hrefused =>
    intro id' e he
    by_cases hid : id' = id
    · subst hid
      obtain ⟨hpos, hexact⟩ := h id' e he
      refine ⟨hetched hpos, ?_⟩
      rw [expectedMints_refused hexact (hheight ▸ hrefused e he)]
      exact hexact
    · exact hother he (by simp [hdec, hmint, Ne.symm hid])
  | @minted _ _ _ _ artifact id e amount hdec hmint he hm ht =>
    intro id' e' he'
    dsimp only at he'
    rw [FinMap.get?_insert] at he'
    split at he'
    · next hid =>
      subst hid
      cases he'
      obtain ⟨hpos, hexact⟩ := h id' e he
      refine ⟨hetched hpos, ?_⟩
      obtain ⟨hterms, hwin, hlt, -⟩ := RuneEntry.mintable_eq_ok.mp hm
      rw [hheight] at hwin
      -- the mint goes through, so it is an attempt in the window, and the count is below the cap
      have hattempt : attemptsMint lib id' e d = true := by
        simp [attemptsMint, hbefore id' e he, hd, hdec, hmint, hwin]
      have hnew : expectedMints lib (done ++ [d]) id'
          { e with mints := e.mints + 1 }.reload = expectedMints lib (done ++ [d]) id' e := rfl
      rw [hnew]
      show e.mints + 1 = _
      unfold expectedMints at hexact ⊢
      rw [if_pos hterms] at hexact ⊢
      rw [mintAttempts_append, hattempt, if_pos rfl]
      omega
    · next hid => exact hother he' (by simp [hdec, hmint, Ne.symm hid])

/-- A new entry has no mints, and no transaction after its etching is done. -/
theorem MintsExact.etch {txIndex : Nat} {tx : Transaction} {txid : Txid} {a : List LotMap}
    (h : MintsExact lib done L) (hmem : ⟨⟨u.height, txIndex⟩, tx, txid⟩ ∈ done)
    (hlast : ∀ d ∈ done, ¬ (⟨u.height, txIndex⟩ : RuneId).Precedes d.id)
    (hstep : Etch lib txIndex tx txid (L, t, u) a (L', t', u')) : MintsExact lib done L' := by
  cases hstep with
  | plain _ => exact h
  | unetched _ _ => exact h
  | @etched _ _ _ _ artifact rune reservedRunes entry _ _ _ _ hentry =>
    intro id e he
    dsimp only at he
    rw [FinMap.get?_insert] at he
    split at he
    · next hid =>
      cases he
      subst hid
      have hnew := newRuneEntry_eq_ok hentry
      refine ⟨⟨_, hmem, rfl, hnew.etching.symm⟩, ?_⟩
      have hnone : mintAttempts lib done ⟨u.height, txIndex⟩ entry.reload = 0 := by
        refine List.countP_eq_zero.mpr fun d hd => ?_
        simp [attemptsMint, hlast d hd]
      unfold expectedMints
      rw [hnone, Nat.min_zero, ite_self]
      exact hnew.mints
    · exact h id e he

end transaction

/-! ### Blocks and runs -/

theorem MintsExact.indexRunes {lib : Crates} {first : Nat} {chain : List BlockData} {b : BlockData}
    {i : Nat} {tx : Transaction} {txid : Txid} {L L' : Ledger} {u u' : RuneUpdater}
    (hget : b.txdata[i]? = some (tx, txid)) (hheight : u.height = first + chain.length)
    (h : MintsExact lib (doneAt first chain b i) L)
    (hstep : TxPhases lib i tx txid L u L' u') :
    MintsExact lib (doneAt first chain b (i + 1)) L' := by
  have hsucc := doneAt_succ first chain hget
  have hlast : ∀ d ∈ doneAt first chain b (i + 1),
      ¬ (⟨first + chain.length, i⟩ : RuneId).Precedes d.id := by
    intro d hd hprecedes
    have := mem_doneAt_precedes hd
    unfold RuneId.Precedes at *
    dsimp only at *
    omega
  -- the transaction counts as done from its mint on, which comes before its etching
  refine (hstep.invariant
    (P := fun L u => u.height = first + chain.length ∧ MintsExact lib (doneAt first chain b i) L)
    (M := fun L u => u.height = first + chain.length ∧
      MintsExact lib (doneAt first chain b (i + 1)) L)
    (Q := fun L u => u.height = first + chain.length ∧
      MintsExact lib (doneAt first chain b (i + 1)) L) ?_ ?_ ?_ ?_ ?_ ⟨hheight, h⟩).2
  · rintro input - L t u L' t' u' hP hspend
    cases hspend with
    | absent _ => exact hP
    | removed _ _ _ => exact hP
  · rintro L t u L' t' u' ⟨hu, hP⟩ hmint
    have hu' : u'.height = first + chain.length := by
      cases hmint <;> exact hu
    refine ⟨hu', ?_⟩
    rw [hsucc]
    refine MintsExact.mint (d := ⟨⟨first + chain.length, i⟩, tx, txid⟩) rfl hu hP ?_ hmint
    intro id e he
    obtain ⟨⟨d, hd, rfl, -⟩, -⟩ := hP id e he
    exact mem_doneAt_precedes hd
  · rintro L t u a L' t' u' ⟨hu, hM⟩ hetch
    have hu' : u'.height = first + chain.length := by
      cases hetch <;> exact hu
    refine ⟨hu', hM.etch (a := a) ?_ (hu ▸ hlast) hetch⟩
    rw [hsucc, hu]
    exact List.mem_append_right _ List.mem_cons_self
  · rintro output L b u L' b' u' hQ houtput
    cases houtput <;> exact hQ
  · exact fun L u b hQ => hQ

theorem Run.mintsExact {lib : Crates} {network : BitcoinNetwork} {node : Node}
    {admits : List BlockData → Prop} {chain : List BlockData} {s : Store}
    (h : Run lib network node admits chain s) :
    MintsExact lib (located (lib.firstRuneHeight network) chain) s.ledger := by
  refine h.invariant (p := .entries)
    (P := fun chain L => MintsExact lib (located (lib.firstRuneHeight network) chain) L)
    (fun _ _ => ⟨nofun, nofun⟩) ?_ ?_ ?_
  · intro chain L L' hagrees hP id e he
    rw [← hagrees.entries] at he
    exact hP id e he
  · intro id e he
    simp [Ledger.empty] at he
  · intro chain b ord s s' _ hrows hP hrun
    rw [← doneAt_length]
    refine indexBlock_invariant
      (P := fun i L _ => MintsExact lib (doneAt (lib.firstRuneHeight network) chain b i) L)
      hrows (by rw [doneAt_zero]; exact hP) ?_ (fun _ _ hP => hP)
      (fun L id e n hQ he => hQ.burn n he) hrun
    exact fun i tx txid hget L u L' u' hu hP hstep => hP.indexRunes hget hu hstep

/-- Along every run the counts of mints are exact: the cap cuts off the number of
    attempts on the held chain, and a mint that is counted releases the amount of the
    terms, a mint that is not counted nothing. -/
theorem Run.mints_exact {lib : Crates} {network : BitcoinNetwork} {node : Node}
    {admits : List BlockData → Prop} {chain : List BlockData} {s : Store}
    (h : Run lib network node admits chain s) :
    (∀ id e, s.runeIdToRuneEntry.get? id = some e →
      (∃ d ∈ located (lib.firstRuneHeight network) chain, d.id = id ∧ d.txid = e.etching) ∧
      e.mints = (if e.terms.isSome then
        min e.mintCap (mintAttempts lib (located (lib.firstRuneHeight network) chain) id e)
        else 0) ∧
      e.mints ≤ e.mintCap) ∧
    ∀ (u : RuneUpdater) id e s₁ s₂ amount u', s₁.runeIdToRuneEntry.get? id = some e →
      (u.mint id).run s₁ = .ok s₂ (amount, u') →
      (amount = none ∧ s₂ = s₁) ∨
      (amount = some e.mintAmount ∧
        s₂.runeIdToRuneEntry.get? id = some { e with mints := e.mints + 1 }.reload) := by
  have hexact := h.mintsExact
  refine ⟨fun id e he => ?_, fun u id e s₁ s₂ amount u' he hrun => ?_⟩
  · obtain ⟨hetched, hmints⟩ := hexact id e he
    refine ⟨hetched, hmints, ?_⟩
    rw [hmints]
    unfold expectedMints
    split
    · exact Nat.min_le_left _ _
    · exact Nat.zero_le _
  -- a single mint counts by one, or leaves everything as it is
  · cases mint_eq_ok hrun with
    | refused _ => exact .inl ⟨rfl, rfl⟩
    | minted he' hm =>
      rw [he] at he'
      cases he'
      obtain ⟨-, -, -, hamount⟩ := RuneEntry.mintable_eq_ok.mp hm
      exact .inr ⟨congrArg some hamount, FinMap.get?_insert_self _ _ _⟩

theorem Run.mints_exact_sample :
    ∃ s e, Run Sample.crates .regtest (fun _ => Answers.any) (fun _ => True) Sample.chain s ∧
      s.runeIdToRuneEntry.get? Sample.runeId = some e ∧ e.mints = 1 ∧ e.mints ≤ e.mintCap := by
  obtain ⟨s, e, hrun, he, hmints, -⟩ := sample_run (fun _ => True) fun _ => trivial
  exact ⟨s, e, hrun, he, hmints, (hrun.mints_exact.1 Sample.runeId e he).2.2⟩

end RunesIndexer
