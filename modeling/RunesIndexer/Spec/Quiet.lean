import RunesIndexer.Spec.MidBlock

/-! # Transactions that change nothing

    A transaction that spends no runes, mints nothing and etches nothing leaves the
    store as it is. Within a block this can be read off the store the block started
    with, and it is the only way to leave the ledger as it was: every other
    transaction makes it advance in an order that no later one goes back in.
-/

namespace RunesIndexer

open Resumption MonadicFold RuneUpdater

/-! ### Quiet transactions -/

section

variable (lib : Crates) (network : BitcoinNetwork) (height : Nat) (ans : Answers) (s : Store)

/-- The transaction finds nothing to spend and nothing to mint. -/
structure Untouched (tx : Transaction) : Prop where
  inputs : ∀ input ∈ tx.input, s.outpointToRuneBalances.get? input.previousOutput = none
  mint : ∀ artifact id e, lib.decipher tx = some artifact → artifact.mint = some id →
    s.runeIdToRuneEntry.get? id = some e → ∀ n, e.mintable height ≠ .ok n

/-- The transaction etches a rune: under a reserved name, or under a free name to which
    it commits. -/
def Accepts (tx : Transaction) : Prop :=
  ∃ artifact, lib.decipher tx = some artifact ∧
    (etchingOf artifact = some none ∨
      ∃ rune, etchingOf artifact = some (some rune) ∧
        ¬ rune.n < (lib.minimumAtHeight network height).n ∧ lib.isReserved rune = false ∧
        s.runeToRuneId.get? rune = none ∧
        Proc.Runs ans ((txCommitsToRune lib (RuneUpdater.new lib network height 0 0) tx rune).run s)
          (.ok s true))

/-- No transaction of `b` up to the one with index `k` touches the store, and none before
    that one etches a rune. -/
structure Quiet (b : BlockData) (k : Nat) : Prop where
  before : ∀ e ∈ b.txdata.take k, Untouched lib height s e.1 ∧ ¬ Accepts lib network height ans s e.1
  next : ∀ e, b.txdata[k]? = some e → Untouched lib height s e.1

/-- State and updater inside the block at `height`. -/
structure InBlock (u : RuneUpdater) : Prop where
  rows : s.RowsEndAt height
  height_eq : u.height = height
  minimum : u.minimum = lib.minimumAtHeight network height
  runes : u.runes = s.ledger.runes

end

variable {lib : Crates} {network : BitcoinNetwork} {height : Nat} {ans : Answers} {ord : HashOrder}
  {tx : Transaction} {txid : Txid} {s s' : Store} {u u' : RuneUpdater} {t t' : LotMap}

/-- Of the store, only the registry of names matters for an etching. -/
theorem Accepts.congr (h : Accepts lib network height ans s tx)
    (hnames : s'.runeToRuneId = s.runeToRuneId) : Accepts lib network height ans s' tx := by
  obtain ⟨artifact, hdec, hname | ⟨rune, hname, hmin, hres, hfree, hrun⟩⟩ := h
  · exact ⟨artifact, hdec, .inl hname⟩
  · refine ⟨artifact, hdec, .inr ⟨rune, hname, hmin, hres, hnames ▸ hfree, ?_⟩⟩
    obtain ⟨s₁, commits, hrun', -, rfl, rfl⟩ :=
      (txCommitsToRune_oblivious lib (RuneUpdater.new lib network height 0 0) tx rune s s').runs_ok
        hrun
    exact hrun'

theorem inBlock_start {time : Nat} (h : s.RowsUpTo height) :
    InBlock lib network height (startBlock height s)
      (RuneUpdater.new lib network height time s.memStatisticRunes) where
  rows := startBlock_rowsEndAt h
  height_eq := rfl
  minimum := rfl
  runes := by
    rw [startBlock_ledger h]
    rfl

/-- A change within the block that counts the runes right. -/
theorem InBlock.step (h : InBlock lib network height s u)
    (hw : WithinBlock u.height s s' ∧ SameBlock u u') (hruns : u'.runes = s'.ledger.runes) :
    InBlock lib network height s' u' where
  rows := by
    have hrows := hw.1.rowsEnd
    rw [h.height_eq] at hrows
    exact hrows h.rows
  height_eq := hw.2.height.trans h.height_eq
  minimum := hw.2.minimum.trans h.minimum
  runes := hruns

/-- The commitment check of the block. -/
theorem InBlock.txCommitsToRune (h : InBlock lib network height s u) (tx : Transaction)
    (rune : Rune) : RuneUpdater.txCommitsToRune lib u tx rune =
      RuneUpdater.txCommitsToRune lib (RuneUpdater.new lib network height 0 0) tx rune :=
  txCommitsToRune_congr lib h.height_eq tx rune

/-! ### They leave the store alone -/

namespace RuneUpdater

/-- Inputs without runes are passed over. -/
theorem unallocated_absent
    (h : ∀ input ∈ tx.input, s.outpointToRuneBalances.get? input.previousOutput = none) :
    (u.unallocated tx).run s = .ok s (∅, u) := by
  unfold unallocated
  generalize tx.input = l at h ⊢
  generalize (∅ : LotMap) = m
  induction l with
  | nil => rfl
  | cons input l ih =>
    rw [sync_foldlM_cons]
    refine ⟨s, (m, u), ?_, ih fun input' h' => h input' (List.mem_cons_of_mem _ h')⟩
    rw [unallocatedInput_run, h input List.mem_cons_self]

/-- A mint that is not possible changes nothing. -/
theorem MintPhase.untouched (hun : Untouched lib u.height s tx)
    (h : MintPhase lib tx s t u s' t' u') : s' = s ∧ t' = t ∧ u' = u := by
  cases h with
  | absent _ => exact ⟨rfl, rfl, rfl⟩
  | refused _ _ _ => exact ⟨rfl, rfl, rfl⟩
  | minted hdec hmint hm _ =>
    cases hm with
    | minted he hm => exact absurd hm (hun.mint _ _ _ hdec hmint he _)

/-- Of an accepted etching, the name and the commitment were checked. -/
theorem etched_accepts {txIndex : Nat} {artifact : Artifact} {out : Option (RuneId × Rune)}
    (hblock : InBlock lib network height s u) (hdec : lib.decipher tx = some artifact)
    (h : Proc.Runs ans ((etched lib u txIndex tx artifact).run s) (.ok s' out))
    (hout : out.isSome) : Accepts lib network height ans s tx := by
  refine ⟨artifact, hdec, ?_⟩
  cases etched_walk h with
  | absent _ => cases hout
  | rejected _ _ => cases hout
  | @walked rune commits _ hname hmin hres hfree hcommit heq =>
    subst heq
    cases commits with
    | false => cases hout
    | true =>
      -- the walk over the inputs is the one of the start of the block
      rw [hblock.minimum] at hmin
      rw [hblock.txCommitsToRune] at hcommit
      exact .inr ⟨rune, hname, hmin, hres, hfree, hcommit⟩
  | reserved hname => exact .inl hname

/-- When every call has one answer, nothing else is needed. -/
theorem etched_of_accepts (hfun : ∀ q a a', ans q a → ans q a' → a = a') {txIndex : Nat}
    {artifact : Artifact} {out : Option (RuneId × Rune)}
    (hblock : InBlock lib network height s u) (hdec : lib.decipher tx = some artifact)
    (hacc : Accepts lib network height ans s tx)
    (h : Proc.Runs ans ((etched lib u txIndex tx artifact).run s) (.ok s' out)) : out.isSome := by
  obtain ⟨artifact', hdec', hacc⟩ := hacc
  rw [hdec] at hdec'
  cases hdec'
  -- every way that returns nothing contradicts what was accepted
  cases etched_walk h with
  | absent hname' =>
    rcases hacc with hname | ⟨rune, hname, -⟩ <;> rw [hname'] at hname <;> cases hname
  | rejected hname' hcond =>
    rcases hacc with hname | ⟨rune, hname, hmin, hres, hfree, -⟩
    · rw [hname'] at hname
      cases hname
    · rw [hname'] at hname
      cases hname
      rw [hblock.minimum, hres, hfree] at hcond
      rcases hcond with hlt | hreserved | htaken
      · exact absurd hlt hmin
      · cases hreserved
      · cases htaken
  | @walked _ commits _ hname' _ _ _ hcommit hout =>
    rcases hacc with hname | ⟨rune, hname, -, -, -, htrue⟩
    · rw [hname'] at hname
      cases hname
    · rw [hname'] at hname
      cases hname
      rw [hblock.txCommitsToRune] at hcommit
      cases hcommit.unique hfun htrue
      rw [hout]
      rfl
  | reserved _ => rfl

/-- Without unallocated runes and without an etching nothing is written. -/
theorem finishTransaction_empty {txIndex : Nat} {artifact : Option Artifact} {a : List LotMap}
    (ht : t.KeysIn fun _ => False) (ha : AllIn (fun _ n => False ∧ 0 < n) a)
    (h : (finishTransaction lib ord u txIndex tx txid artifact t a).run s = .ok s' u') :
    s' = s := by
  obtain ⟨a₁, burned, burned', u₁, b, hassign, hout, -, -⟩ := finishTransaction_eq_ok h
  obtain ⟨ha₁, -⟩ := (assignUnallocated_total hassign).2.2 (fun _ => False)
    (fun e he => ht e.1 (by rw [mem_iter.mp he]; rfl)) ha
  refine outputs_invariant (P := fun s' _ _ => s' = s) ?_ rfl hout
  intro balances vout hmem s₁ b₁ u₁ s₂ b₂ u₂ hs₁ hupdate
  cases hupdate with
  | nothing _ => exact hs₁
  | burns _ _ _ => exact hs₁
  | created hsize _ _ =>
    -- every map of amounts is empty
    have hempty : balances = ∅ := by
      refine FinMap.ext fun id => ?_
      cases hget : balances.get? id with
      | none => rfl
      | some n => exact (ha₁ balances (List.fst_mem_of_mem_zipIdx hmem) id n hget).1.elim
    rw [hempty] at hsize
    exact absurd rfl hsize

/-- A quiet transaction leaves the store as it is. -/
theorem indexRunes_quiet {txIndex : Nat} (hblock : InBlock lib network height s u)
    (hun : Untouched lib height s tx) (hacc : ¬ Accepts lib network height ans s tx)
    (h : Proc.Runs ans ((u.indexRunes lib ord txIndex tx txid).run s) (.ok s' u')) : s' = s := by
  unfold indexRunes at h
  obtain ⟨s₁, ⟨t₁, u₁⟩, hunalloc, h⟩ := Async.runs_liftM_bind_ok.mp h
  rw [unallocated_absent hun.inputs] at hunalloc
  cases hunalloc
  obtain ⟨s₂, ⟨t₂, a₂, u₂⟩, hart, hfinish⟩ := Async.runs_bind_ok.mp h
  obtain ⟨rfl, ht, ha⟩ : s₂ = s ∧ t₂.KeysIn (fun _ => False) ∧
      AllIn (fun _ n => False ∧ 0 < n) a₂ := by
    cases hdec : lib.decipher tx with
    | none =>
      rw [hdec] at hart
      cases Proc.runs_ok.mp hart
      exact ⟨rfl, LotMap.keysIn_empty _, allIn_replicate _ _⟩
    | some artifact =>
      rw [hdec] at hart
      obtain ⟨s₃, t₃, u₃, s₄, out, hmint, hetched, hstone, hrest⟩ := indexArtifact_runs hart
      obtain ⟨rfl, rfl, rfl⟩ := (indexMint_phase hdec hmint).untouched
        (hblock.height_eq.symm ▸ hun)
      rcases hrest with ⟨rfl, rfl, rfl⟩ | ⟨id, rune, entry, rfl, -⟩
      · cases etched_runs hetched
        obtain ⟨ht, ha⟩ := (indexRunestone_total hstone).2.2 (fun _ => False)
          (LotMap.keysIn_empty _) (by simp)
        exact ⟨rfl, ht, ha⟩
      · exact absurd (etched_accepts hblock hdec hetched rfl) hacc
  exact finishTransaction_empty ht ha (Async.runs_liftM.mp hfinish)

/-- A transaction keeps state and updater within the block. -/
theorem indexRunes_inBlock {txIndex : Nat} (hblock : InBlock lib network height s u)
    (h : Proc.Runs ans ((u.indexRunes lib ord txIndex tx txid).run s) (.ok s' u')) :
    InBlock lib network height s' u' := by
  refine indexRunes_preserves (P := InBlock lib network height) ?_ ?_ ?_ ?_ ?_ hblock h
  · intro o s t u s' t' u' hP hstep
    refine hP.step hstep.within ?_
    cases hstep <;> exact hP.runes
  · intro id s u s' amount u' hP hstep
    refine hP.step hstep.within ?_
    cases hstep <;> exact hP.runes
  · intro artifact id rune entry s s₁ u hP hetched _
    refine hP.step ⟨hetched.within.trans (createdStore_within u txid id rune entry s₁),
      ⟨rfl, rfl, rfl⟩⟩ ?_
    rw [ledger_createdStore (hetched.within.rowsEnd (hP.height_eq.symm ▸ hP.rows))]
    rfl
  · intro balances vout s b u s' b' u' hP hstep
    refine hP.step hstep.within ?_
    cases hstep <;> exact hP.runes
  · exact fun s u b hP => ⟨hP.rows, hP.height_eq, hP.minimum, hP.runes⟩

end RuneUpdater

theorem indexTransactions_quiet {l : List (Transaction × Txid)} {n : Nat}
    (hblock : InBlock lib network height s u)
    (hl : ∀ e ∈ l, Untouched lib height s e.1 ∧ ¬ Accepts lib network height ans s e.1)
    (h : Proc.Runs ans ((indexTransactions lib ord u n l).run s) (.ok s' u')) :
    s' = s ∧ InBlock lib network height s u' := by
  induction l generalizing n u with
  | nil =>
    cases Proc.runs_ok.mp h
    exact ⟨rfl, hblock⟩
  | cons e l ih =>
    obtain ⟨tx, txid⟩ := e
    obtain ⟨s₁, u₁, h₁, h₂⟩ := Async.runs_bind_ok.mp h
    obtain ⟨hun, hacc⟩ := hl _ List.mem_cons_self
    obtain rfl := indexRunes_quiet hblock hun hacc h₁
    exact ih (indexRunes_inBlock hblock h₁) (fun e he => hl e (List.mem_cons_of_mem _ he)) h₂

end RunesIndexer
