import RunesIndexer.Lib.Interruption
import RunesIndexer.Lib.Monitor
import RunesIndexer.Spec.Bounds
import RunesIndexer.Spec.Congruence

/-! # Inside a block

    `index_block` stops only where it checks the commitment of an etching: there it
    waits for the node, and there an error of the node ends it. What has been
    committed by then are the transactions before, and of the transaction itself
    the spent inputs and the mint.
-/

namespace RunesIndexer

open Resumption MonadicFold

/-- The call of `tx_commits_to_rune` fails. -/
def Answers.IsError : Answers
  | .getRawTransactionInfo _, (a : Except Error RawTransaction) => ∃ e, a = .error e
  | .getBlockHeaderInfo _, (a : Except Error Nat) => ∃ e, a = .error e
  | _, _ => False

namespace RuneUpdater

/-! ### Parts that cannot stop -/

theorem mint_errorFree (u : RuneUpdater) (id : RuneId) : (u.mint id).ErrorFree := by
  intro s s' e h
  obtain ⟨s₁, amount, u₁, hrun, -⟩ := mint_run u id s
  rw [hrun] at h
  cases h

theorem indexMint_errorFree (u : RuneUpdater) (artifact : Artifact) (t : LotMap) :
    (u.indexMint artifact t).ErrorFree := by
  unfold indexMint
  split
  · exact .pure _
  · refine .bind (mint_errorFree u _) fun x => ?_
    split
    · exact .pure _
    · exact .bind (.ofExcept _) fun _ => .pure _

theorem createRuneEntry_errorFree (u : RuneUpdater) (txid : Txid) (artifact : Artifact)
    (id : RuneId) (rune : Rune) : (u.createRuneEntry txid artifact id rune).ErrorFree := by
  intro s s' e h
  rw [createRuneEntry_run] at h
  cases hentry : newRuneEntry u txid artifact id rune with
  | error p =>
    rw [hentry] at h
    cases h
  | ok entry =>
    rw [hentry] at h
    cases h

theorem updateOutpoint_errorFree (lib : Crates) (ord : HashOrder) (txIndex : Nat)
    (tx : Transaction) (txid : Txid) (x : LotMap × RuneUpdater) (output : LotMap × Nat) :
    (updateOutpoint lib ord txIndex tx txid x output).ErrorFree := by
  unfold updateOutpoint
  dsimp only
  split
  · exact .pure _
  · refine .bind (.ofExcept _) fun txOut => ?_
    split
    · exact .bind (.ofExcept _) fun _ => .pure _
    · exact .bind (.modify _) fun _ => .bind (.modify _) fun _ => .pure _

theorem finishTransaction_errorFree (lib : Crates) (ord : HashOrder) (u : RuneUpdater)
    (txIndex : Nat) (tx : Transaction) (txid : Txid) (artifact : Option Artifact) (t : LotMap)
    (a : List LotMap) : (finishTransaction lib ord u txIndex tx txid artifact t a).ErrorFree := by
  unfold finishTransaction
  refine .bind (.ofExcept _) fun x => ?_
  refine .bind (.foldlM (fun x output => updateOutpoint_errorFree lib ord txIndex tx txid x output)
    _ _) fun x => ?_
  exact .bind (.ofExcept _) fun _ => .pure _

theorem updateBurned_errorFree (record : ChangeRecord) (e : RuneId × Nat) :
    (updateBurned record e).ErrorFree := by
  unfold updateBurned
  refine .bind (.gets _) fun entry => .bind (.ofExcept _) fun entry => ?_
  exact .bind (.ofExcept _) fun burned => .bind (.modify _) fun _ => .pure _

theorem update_errorFree (ord : HashOrder) (u : RuneUpdater) : (u.update ord).ErrorFree :=
  .bind (.foldlM updateBurned_errorFree _ _) fun _ => .modify _

/-- Inputs fail only if the height of an outpoint with balances is missing. -/
theorem unallocated_ne_err {u : RuneUpdater} {tx : Transaction} {s s' : Store} {e : Error}
    (h : s.ledger.Paired) : (u.unallocated tx).run s ≠ .err s' e := by
  refine Sync.foldlM_ne_err (P := fun _ s => s.ledger.Paired) ?_ ?_ h
  · intro input _ x s x' s' hpaired hrun
    exact hpaired.spend (unallocatedInput_eq_ok hrun).spend
  · intro input _ x s s' e hpaired hrun
    rw [unallocatedInput_run] at hrun
    cases hl : s.outpointToRuneBalances.get? input.previousOutput with
    | none =>
      rw [hl] at hrun
      cases hrun
    | some l =>
      have hb : (s.ledger.balances.get? input.previousOutput).isSome := by
        rw [Store.ledger_balances_get?, hl]
        rfl
      obtain ⟨n, hn⟩ := Option.isSome_iff_exists.mp (hpaired _ hb)
      have hn' : s.outpointToHeight.get? input.previousOutput = some n := hn
      rw [hl, hn'] at hrun
      dsimp only at hrun
      split at hrun <;> cases hrun

/-! ### The commitment check -/

/-- An etching stops only in the commitment check, which writes nothing. -/
theorem etched_stops {lib : Crates} {u : RuneUpdater} {txIndex : Nat} {tx : Transaction}
    {artifact : Artifact} {ans : Answers} {s : Store} {x : Stop Error Store}
    (h : Proc.Stops ans ((etched lib u txIndex tx artifact).run s) x) : x.state = s := by
  unfold etched at h
  split at h
  · exact absurd h Proc.not_stops_ok
  · next rune _ =>
    rcases Async.stops_bind.mp h with h | ⟨s₁, taken, hget, h⟩
    · exact absurd h (Sync.ErrorFree.gets _).not_stops
    · cases Async.runs_liftM.mp hget
      split at h
      · exact absurd h Proc.not_stops_ok
      · rcases Async.stops_bind.mp h with h | ⟨s₁, commits, -, h⟩
        · exact (txCommitsToRune_oblivious lib u tx rune).readOnly.stops h
        · split at h
          · exact absurd h Proc.not_stops_ok
          · exact absurd h Proc.not_stops_ok
  · rcases Async.stops_bind.mp h with h | ⟨s₁, _, -, h⟩
    · exact absurd h (Sync.ErrorFree.gets _).not_stops
    · rcases Async.stops_bind.mp h with h | ⟨s₁, _, -, h⟩
      · exact absurd h (Sync.ErrorFree.modify _).not_stops
      · exact absurd h Proc.not_stops_ok

/-- An artifact stops after its mint and before its etching. -/
theorem indexArtifact_stops {lib : Crates} {u : RuneUpdater} {txIndex : Nat} {tx : Transaction}
    {txid : Txid} {artifact : Artifact} {t : LotMap} {ans : Answers} {s : Store}
    {x : Stop Error Store}
    (h : Proc.Stops ans ((indexArtifact lib u txIndex tx txid artifact t).run s) x) :
    ∃ t' u', (u.indexMint artifact t).run s = .ok x.state (t', u') := by
  unfold indexArtifact at h
  rcases Async.stops_bind.mp h with h | ⟨s₁, ⟨t₁, u₁⟩, hmint, h⟩
  · exact absurd h (indexMint_errorFree u artifact t).not_stops
  · rcases Async.stops_bind.mp h with h | ⟨s₂, out, -, h⟩
    · rw [etched_stops h]
      exact ⟨t₁, u₁, Async.runs_liftM.mp hmint⟩
    · -- nothing after the etching can stop
      exfalso
      rcases Async.stops_bind.mp h with h | ⟨s₃, y, -, h⟩
      · cases hstone : indexRunestone lib tx artifact out t₁ with
        | error p =>
          rw [hstone] at h
          cases x <;> cases h
        | ok y =>
          rw [hstone] at h
          exact Proc.not_stops_ok h
      · dsimp only at h
        split at h
        · exact Proc.not_stops_ok h
        · rcases Async.stops_bind.mp h with h | ⟨s₄, u₄, -, h⟩
          · exact (createRuneEntry_errorFree u₁ txid artifact _ _).not_stops h
          · exact Proc.not_stops_ok h

/-- A transaction stops at an input whose height is missing, or with its inputs spent and
    its mint done. -/
theorem indexRunes_stops_cases {lib : Crates} {ord : HashOrder} {u : RuneUpdater} {txIndex : Nat}
    {tx : Transaction} {txid : Txid} {ans : Answers} {s : Store} {x : Stop Error Store}
    (h : Proc.Stops ans ((u.indexRunes lib ord txIndex tx txid).run s) x) :
    (∃ e, (u.unallocated tx).run s = .err x.state e) ∨
    ∃ s₁ t₁ u₁ t₂ u₂, (u.unallocated tx).run s = .ok s₁ (t₁, u₁) ∧
      MintPhase lib tx s₁ t₁ u₁ x.state t₂ u₂ := by
  unfold indexRunes at h
  rcases Async.stops_bind.mp h with h | ⟨s₁, ⟨t₁, u₁⟩, hunalloc, h⟩
  · cases x with
    | waiting s' => exact absurd h Proc.awaits_toProc
    | failed s' e => exact .inl ⟨e, Async.runs_liftM.mp h⟩
  · refine .inr ⟨s₁, t₁, u₁, ?_⟩
    rcases Async.stops_bind.mp h with h | ⟨s₂, y, -, h⟩
    · cases hdec : lib.decipher tx with
      | none =>
        rw [hdec] at h
        exact absurd h Proc.not_stops_ok
      | some artifact =>
        rw [hdec] at h
        obtain ⟨t₂, u₂, hmint⟩ := indexArtifact_stops h
        exact ⟨t₂, u₂, Async.runs_liftM.mp hunalloc, indexMint_phase hdec hmint⟩
    · exact absurd h (finishTransaction_errorFree lib ord _ txIndex tx txid _ _ _).not_stops

/-- Where a transaction stops, its inputs are spent and its mint is done. -/
theorem indexRunes_stops {lib : Crates} {ord : HashOrder} {u : RuneUpdater} {txIndex : Nat}
    {tx : Transaction} {txid : Txid} {ans : Answers} {s : Store} {x : Stop Error Store}
    (hpaired : s.ledger.Paired)
    (h : Proc.Stops ans ((u.indexRunes lib ord txIndex tx txid).run s) x) :
    ∃ s₁ t₁ u₁ t₂ u₂, (u.unallocated tx).run s = .ok s₁ (t₁, u₁) ∧
      MintPhase lib tx s₁ t₁ u₁ x.state t₂ u₂ := by
  rcases indexRunes_stops_cases h with ⟨e, herr⟩ | h
  · exact absurd herr (unallocated_ne_err hpaired)
  · exact h

/-- Inputs are within the block, also where one of them fails. -/
theorem unallocatedInput_maintains (height : Nat) (s₀ : Store) (x : LotMap × RuneUpdater)
    (input : TxIn) :
    Sync.Maintains (WithinBlock height s₀) (fun _ => True) (unallocatedInput x input) := by
  intro s hs
  rw [unallocatedInput_run]
  split
  · exact ⟨hs, trivial⟩
  · split
    · trivial
    · split
      · exact hs.trans (.of_eq rfl rfl rfl rfl rfl rfl)
      · exact ⟨hs.trans (.of_eq rfl rfl rfl rfl rfl rfl), trivial⟩

theorem unallocated_err_within {u : RuneUpdater} {tx : Transaction} {s s' : Store} {e : Error}
    (h : (u.unallocated tx).run s = .err s' e) : WithinBlock u.height s s' := by
  have hfold : Sync.Maintains (WithinBlock u.height s) (fun _ => True) (u.unallocated tx) :=
    .foldlM trivial fun input _ x _ => unallocatedInput_maintains u.height s x input
  have hend := hfold s (.refl _ _)
  rw [h] at hend
  exact hend

theorem unallocated_within {u u₁ : RuneUpdater} {tx : Transaction} {s s₁ : Store} {t₁ : LotMap}
    (h : (u.unallocated tx).run s = .ok s₁ (t₁, u₁)) :
    WithinBlock u.height s s₁ ∧ SameBlock u u₁ :=
  unallocated_invariant (P := fun s' _ u' => WithinBlock u.height s s' ∧ SameBlock u u')
    (fun _ _ _ _ _ _ _ _ hP hstep => within_trans hP hstep.within) ⟨.refl _ _, .refl u⟩ h

theorem MintPhase.within {lib : Crates} {u u' : RuneUpdater} {tx : Transaction} {s s' : Store}
    {t t' : LotMap} (h : MintPhase lib tx s t u s' t' u') :
    WithinBlock u.height s s' ∧ SameBlock u u' := by
  cases h with
  | absent _ => exact ⟨.refl _ _, .refl u⟩
  | refused _ _ _ => exact ⟨.refl _ _, .refl u⟩
  | minted _ _ hm _ => exact hm.within

/-- A transaction that stops has written nothing outside its block. -/
theorem indexRunes_stops_within {lib : Crates} {ord : HashOrder} {u : RuneUpdater} {txIndex : Nat}
    {tx : Transaction} {txid : Txid} {ans : Answers} {s : Store} {x : Stop Error Store}
    (h : Proc.Stops ans ((u.indexRunes lib ord txIndex tx txid).run s) x) :
    WithinBlock u.height s x.state := by
  rcases indexRunes_stops_cases h with ⟨e, herr⟩ | ⟨s₁, t₁, u₁, t₂, u₂, hunalloc, hm⟩
  · exact unallocated_err_within herr
  · exact (within_trans (unallocated_within hunalloc) hm.within).1

/-! ### Errors are handed on -/

theorem getRawTransactionInfo_failsOn (txid : Txid) :
    (getRawTransactionInfo txid).FailsOn Answers.IsError := by
  intro s
  refine .await (fun reply hreply => ?_) fun reply => ?_
  · obtain ⟨e, rfl⟩ := hreply
    exact ⟨s, e, rfl⟩
  · exact Async.FailsOn.lift (ofResult reply) s

theorem getBlockHeaderInfo_failsOn (hash : BlockHash) :
    (getBlockHeaderInfo hash).FailsOn Answers.IsError := by
  intro s
  refine .await (fun reply hreply => ?_) fun reply => ?_
  · obtain ⟨e, rfl⟩ := hreply
    exact ⟨s, e, rfl⟩
  · exact Async.FailsOn.lift (ofResult reply) s

theorem txCommitsToRune_failsOn (lib : Crates) (u : RuneUpdater) (tx : Transaction) (rune : Rune) :
    (txCommitsToRune lib u tx rune).FailsOn Answers.IsError := by
  have hrules : CommitRules fun _ x => Async.FailsOn Answers.IsError x :=
    { pure := fun a => .pure a
      bind := fun hx hf => .bind hx hf
      fail := fun _ => .lift _
      ofExcept := fun x => .ofExcept x
      transaction := getRawTransactionInfo_failsOn
      header := getBlockHeaderInfo_failsOn }
  exact hrules.txCommitsToRune lib u tx rune

theorem etched_failsOn (lib : Crates) (u : RuneUpdater) (txIndex : Nat) (tx : Transaction)
    (artifact : Artifact) : (etched lib u txIndex tx artifact).FailsOn Answers.IsError := by
  unfold etched
  split
  · exact .pure none
  · refine .bind (.lift _) fun taken => ?_
    split
    · exact .pure none
    · refine .bind (txCommitsToRune_failsOn _ _ _ _) fun commits => ?_
      split
      · exact .pure _
      · exact .pure none
  · exact .bind (.lift _) fun _ => .bind (.lift _) fun _ => .pure _

theorem indexRunes_failsOn (lib : Crates) (ord : HashOrder) (u : RuneUpdater) (txIndex : Nat)
    (tx : Transaction) (txid : Txid) :
    (u.indexRunes lib ord txIndex tx txid).FailsOn Answers.IsError := by
  unfold indexRunes
  refine .bind (.lift _) fun x => .bind ?_ fun y => .lift _
  cases lib.decipher tx with
  | none => exact .pure _
  | some artifact =>
    refine .bind (.lift _) fun x => .bind (etched_failsOn _ _ _ _ _) fun out => ?_
    refine .bind (.ofExcept _) fun y => ?_
    cases out with
    | none => exact .pure _
    | some pair => exact .bind (.lift _) fun _ => .pure _

end RuneUpdater

theorem indexTransactions_failsOn (lib : Crates) (ord : HashOrder)
    (l : List (Transaction × Txid)) (u : RuneUpdater) (n : Nat) :
    (indexTransactions lib ord u n l).FailsOn Answers.IsError := by
  induction l generalizing u n with
  | nil => exact .pure u
  | cons e l ih => exact .bind (RuneUpdater.indexRunes_failsOn _ _ _ _ _ _) fun u => ih u (n + 1)

/-! ### Blocks -/

/-- Transactions stop in one of them, after those before it. -/
theorem indexTransactions_stops {lib : Crates} {ord : HashOrder} {ans : Answers}
    {l : List (Transaction × Txid)} {n : Nat} {u : RuneUpdater} {s : Store} {x : Stop Error Store}
    (h : Proc.Stops ans ((indexTransactions lib ord u n l).run s) x) :
    ∃ k tx txid s₁ u₁, l[k]? = some (tx, txid) ∧
      Proc.Runs ans ((indexTransactions lib ord u n (l.take k)).run s) (.ok s₁ u₁) ∧
      Proc.Stops ans ((u₁.indexRunes lib ord (n + k) tx txid).run s₁) x := by
  induction l generalizing n u s with
  | nil => exact absurd h Proc.not_stops_ok
  | cons e l ih =>
    obtain ⟨tx, txid⟩ := e
    rcases Async.stops_bind.mp h with h | ⟨s₁, u₁, hrun, h⟩
    · exact ⟨0, tx, txid, s, u, rfl, .ok s u, h⟩
    · obtain ⟨k, tx', txid', s₂, u₂, hget, hdone, hstop⟩ := ih h
      refine ⟨k + 1, tx', txid', s₂, u₂, hget, ?_, ?_⟩
      · exact Async.runs_bind_ok.mpr ⟨s₁, u₁, hrun, hdone⟩
      · rw [show n + (k + 1) = n + 1 + k by omega]
        exact hstop

/-- The block at `height` gets through its first `k` transactions and stops at `x` in the
    next one. -/
def StopsIn (lib : Crates) (ord : HashOrder) (network : BitcoinNetwork) (height : Nat)
    (b : BlockData) (ans : Answers) (s : Store) (k : Nat) (x : Stop Error Store) : Prop :=
  ∃ tx txid s₁ u₁, b.txdata[k]? = some (tx, txid) ∧
    Proc.Runs ans ((indexTransactions lib ord
      (RuneUpdater.new lib network height b.header.time s.memStatisticRunes) 0
        (b.txdata.take k)).run (startBlock height s)) (.ok s₁ u₁) ∧
    Proc.Stops ans ((u₁.indexRunes lib ord k tx txid).run s₁) x

theorem indexTransactions_paired {lib : Crates} {ord : HashOrder} {ans : Answers}
    {l : List (Transaction × Txid)} {n : Nat} {u u' : RuneUpdater} {s s' : Store}
    (hrows : s.RowsEndAt u.height) (hpaired : s.ledger.Paired)
    (h : Proc.Runs ans ((indexTransactions lib ord u n l).run s) (.ok s' u')) :
    s'.ledger.Paired := by
  refine (indexTransactions_invariant
    (P := fun _ s' u' => s'.RowsEndAt u'.height ∧ s'.ledger.Paired) ?_ ⟨hrows, hpaired⟩ h).2
  rintro i tx txid - s₁ u₁ s₂ u₂ ⟨hrows₁, hpaired₁⟩ hrun
  obtain ⟨hw, hu⟩ := RuneUpdater.indexRunes_within hrun
  exact ⟨hu.height ▸ hw.rowsEnd hrows₁, hpaired₁.indexRunes (indexRunes_phases hrows₁ hrun)⟩

/-- Where a block stops, the transactions before are done and of the next one inputs and
    mint. -/
theorem StopsIn.parts {lib : Crates} {ord : HashOrder} {network : BitcoinNetwork} {height : Nat}
    {b : BlockData} {ans : Answers} {s : Store} {k : Nat} {x : Stop Error Store}
    (hrows : s.RowsUpTo height) (hpaired : s.ledger.Paired)
    (h : StopsIn lib ord network height b ans s k x) :
    ∃ tx txid s₁ u₁ s₂ t₂ u₂ t₃ u₃, b.txdata[k]? = some (tx, txid) ∧
      Proc.Runs ans ((indexTransactions lib ord
        (RuneUpdater.new lib network height b.header.time s.memStatisticRunes) 0
          (b.txdata.take k)).run (startBlock height s)) (.ok s₁ u₁) ∧
      (u₁.unallocated tx).run s₁ = .ok s₂ (t₂, u₂) ∧
      RuneUpdater.MintPhase lib tx s₂ t₂ u₂ x.state t₃ u₃ := by
  obtain ⟨tx, txid, s₁, u₁, hget, hdone, hstop⟩ := h
  have hpaired₁ : s₁.ledger.Paired :=
    indexTransactions_paired (startBlock_rowsEndAt hrows) (startBlock_ledger hrows ▸ hpaired) hdone
  obtain ⟨s₂, t₂, u₂, t₃, u₃, hunalloc, hm⟩ := RuneUpdater.indexRunes_stops hpaired₁ hstop
  exact ⟨tx, txid, s₁, u₁, s₂, t₂, u₂, t₃, u₃, hget, hdone, hunalloc, hm⟩

/-- A block that stops has written nothing outside it. -/
theorem StopsIn.within {lib : Crates} {ord : HashOrder} {network : BitcoinNetwork} {height : Nat}
    {b : BlockData} {ans : Answers} {s : Store} {k : Nat} {x : Stop Error Store}
    (h : StopsIn lib ord network height b ans s k x) :
    WithinBlock height (startBlock height s) x.state := by
  obtain ⟨tx, txid, s₁, u₁, -, hdone, hstop⟩ := h
  exact (within_trans (indexTransactions_within hdone)
    ⟨RuneUpdater.indexRunes_stops_within hstop, .refl u₁⟩).1

theorem indexBlock_stops {lib : Crates} {ord : HashOrder} {network : BitcoinNetwork} {height : Nat}
    {b : BlockData} {ans : Answers} {s : Store} {x : Stop Error Store}
    (h : Proc.Stops ans ((indexBlock lib ord network height b).run s) x) :
    ∃ k, StopsIn lib ord network height b ans s k x := by
  unfold indexBlock at h
  rcases Async.stops_bind.mp h with h | ⟨s₁, runes, hinit, h⟩
  · cases x <;> cases h
  · cases Async.runs_liftM.mp hinit
    rcases Async.stops_bind.mp h with h | ⟨s₂, u, -, h⟩
    · obtain ⟨k, tx, txid, s₁, u₁, hget, hdone, hstop⟩ := indexTransactions_stops h
      rw [Nat.zero_add] at hstop
      exact ⟨k, tx, txid, s₁, u₁, hget, hdone, hstop⟩
    · rcases Async.stops_bind.mp h with h | ⟨s₃, _, -, h⟩
      · exact absurd h (RuneUpdater.update_errorFree ord u).not_stops
      · exact absurd h (Sync.ErrorFree.modify _).not_stops

end RunesIndexer
