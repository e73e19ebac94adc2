import RunesIndexer.Lib.Simulation
import RunesIndexer.Model.Updater

/-! # What one transaction does

    Inversion lemmas for the functions of `rune_updater.rs`: for each, what a
    completed call did to the state, the updater and the local maps. Every later
    result about transactions starts from these and unfolds no definition again.
-/

namespace RunesIndexer

open Resumption MonadicFold

/-! ### Operations that may panic -/

theorem indexAt_eq_ok {α : Type} {xs : List α} {i : Nat} {a : α} :
    indexAt xs i = .ok a ↔ xs[i]? = some a := by
  unfold indexAt
  cases xs[i]? <;> simp

theorem unwrap_eq_ok {α : Type} {x : Option α} {a : α} : unwrap x = .ok a ↔ x = some a := by
  cases x <;> simp [unwrap]

theorem assertThat_eq_ok {p : Prop} [Decidable p] {a : Unit} :
    assertThat p = .ok a ↔ p := by
  unfold assertThat
  split <;> simp_all

namespace RuneUpdater

/-! ### The commitment check -/

/-- Properties of code that the constructs of `tx_commits_to_rune` preserve. -/
structure CommitRules (P : (α : Type) → AsyncM α → Prop) : Prop where
  pure : ∀ {α : Type} (a : α), P α (pure a)
  bind : ∀ {α β : Type} {x : AsyncM α} {f : α → AsyncM β},
    P α x → (∀ a, P β (f a)) → P β (x >>= f)
  fail : ∀ {α : Type} (e : Error), P α (liftM (fail e : IndexM α))
  ofExcept : ∀ {α : Type} (x : Except Panic α), P α (liftM x)
  transaction : ∀ txid, P _ (getRawTransactionInfo txid)
  header : ∀ hash, P _ (getBlockHeaderInfo hash)

namespace CommitRules

variable {P : (α : Type) → AsyncM α → Prop}

theorem ofResult (h : CommitRules P) {α : Type} (x : Except Error α) :
    P α (liftM (RunesIndexer.ofResult x)) := by
  cases x with
  | error e => exact h.fail e
  | ok a => exact h.pure a

/-- By induction on the script: what follows an instruction is the loop over the rest. -/
theorem commitsInScript (h : CommitRules P) (lib : Crates) (u : RuneUpdater)
    (commitment : List UInt8) (o : OutPoint) (l : List (Except Unit Instruction)) :
    P _ (RuneUpdater.commitsInScript lib u commitment o l) := by
  induction l with
  | nil => exact h.pure false
  | cons instruction rest ih =>
    cases instruction with
    | error e => exact h.pure false
    | ok instruction =>
      unfold RuneUpdater.commitsInScript
      split
      · refine h.bind (h.transaction _) fun txInfo => ?_
        refine h.bind (h.ofExcept _) fun scriptPubkey => ?_
        refine h.bind (h.ofResult _) fun script => ?_
        split
        · split
          · exact h.fail _
          · refine h.bind (h.header _) fun commitTxHeight => ?_
            refine h.bind (h.ofExcept _) fun sub => ?_
            dsimp only
            split
            · exact h.pure true
            · exact ih
        · exact ih
      · exact ih

theorem txCommitsToRune (h : CommitRules P) (lib : Crates) (u : RuneUpdater) (tx : Transaction)
    (rune : Rune) : P _ (RuneUpdater.txCommitsToRune lib u tx rune) := by
  unfold RuneUpdater.txCommitsToRune
  induction tx.input with
  | nil => exact h.pure false
  | cons input rest ih =>
    unfold commitsInInputs
    split
    · exact ih
    · refine h.bind (h.commitsInScript _ _ _ _ _) fun commits => ?_
      split
      · exact h.pure true
      · exact ih

end CommitRules

theorem ofResult_oblivious {α : Type} (x : Except Error α) :
    (liftM (ofResult x) : AsyncM α).Oblivious := by
  cases x with
  | error e => exact .fail e
  | ok a => exact fun _ _ => .ok ⟨rfl, rfl, rfl⟩

/-- The check ignores the state. -/
theorem txCommitsToRune_oblivious (lib : Crates) (u : RuneUpdater) (tx : Transaction)
    (rune : Rune) : (txCommitsToRune lib u tx rune).Oblivious := by
  have hrules : CommitRules fun _ x => Async.Oblivious x :=
    { pure := fun a => .pure a
      bind := fun hx hf => .bind hx hf
      fail := fun e => .fail e
      ofExcept := fun x => .ofExcept x
      transaction := fun _ => .bind (.call _) fun reply => ofResult_oblivious reply
      header := fun _ => .bind (.call _) fun reply => ofResult_oblivious reply }
  exact hrules.txCommitsToRune lib u tx rune

/-- Of the updater only the height is read. -/
theorem commitsInScript_congr (lib : Crates) {u u' : RuneUpdater} (h : u.height = u'.height)
    (commitment : List UInt8) (o : OutPoint) (l : List (Except Unit Instruction)) :
    commitsInScript lib u commitment o l = commitsInScript lib u' commitment o l := by
  induction l with
  | nil => rfl
  | cons instruction rest ih =>
    cases instruction with
    | error e => rfl
    | ok instruction =>
      unfold commitsInScript
      rw [ih, h]

theorem txCommitsToRune_congr (lib : Crates) {u u' : RuneUpdater} (h : u.height = u'.height)
    (tx : Transaction) (rune : Rune) :
    txCommitsToRune lib u tx rune = txCommitsToRune lib u' tx rune := by
  unfold txCommitsToRune
  induction tx.input with
  | nil => rfl
  | cons input rest ih =>
    unfold commitsInInputs
    rw [ih]
    simp only [commitsInScript_congr lib h]

/-! ### Inputs -/

/-- The ways the loop body of `unallocated` returns. -/
inductive Unallocated (o : OutPoint) (s : Store) (t : LotMap) (u : RuneUpdater) :
    Store → LotMap → RuneUpdater → Prop
  /-- The outpoint holds no runes. -/
  | absent (h : s.outpointToRuneBalances.get? o = none) : Unallocated o s t u s t u
  /-- Its balances are taken, and the record keeps what was removed. -/
  | removed {runeBalances : RuneBalances} {height : Nat} {t' : LotMap}
      (hb : s.outpointToRuneBalances.get? o = some runeBalances)
      (hh : s.outpointToHeight.get? o = some height)
      (ht : runeBalances.foldlM (fun m b => LotMap.addTo m b.runeId b.balance) t = .ok t') :
      Unallocated o s t u
        ((s.memRemoveOutpointToRuneBalances o).memRemoveOutpointToHeight o) t'
        { u with changeRecord := { u.changeRecord with
            removedOutpoints := u.changeRecord.removedOutpoints ++ [(o, runeBalances, height)] } }

theorem unallocatedInput_eq_ok {t t' : LotMap} {u u' : RuneUpdater} {input : TxIn} {s s' : Store}
    (h : (unallocatedInput (t, u) input).run s = .ok s' (t', u')) :
    Unallocated input.previousOutput s t u s' t' u' := by
  unfold unallocatedInput at h
  obtain ⟨s₁, balances, hget, h⟩ := Sync.bind_eq_ok.mp h
  cases hget
  cases hb : s.memGetOutpointToRuneBalances input.previousOutput with
  | none =>
    rw [hb] at h
    cases h
    exact .absent hb
  | some runeBalances =>
    rw [hb] at h
    obtain ⟨s₁, _, hmod, h⟩ := Sync.bind_eq_ok.mp h
    cases hmod
    obtain ⟨t₁, ht, h⟩ := Sync.liftM_bind_eq_ok.mp h
    obtain ⟨s₁, height, hget, h⟩ := Sync.bind_eq_ok.mp h
    cases hget
    -- without a height the code returns an error
    cases hh : s.outpointToHeight.get? input.previousOutput with
    | none =>
      rw [show (s.memRemoveOutpointToRuneBalances input.previousOutput).memGetOutpointToHeight
        input.previousOutput = none from hh] at h
      cases h
    | some height =>
      rw [show (s.memRemoveOutpointToRuneBalances input.previousOutput).memGetOutpointToHeight
        input.previousOutput = some height from hh] at h
      obtain ⟨s₁, _, hmod, h⟩ := Sync.bind_eq_ok.mp h
      cases hmod
      cases h
      exact .removed hb hh ht

/-- What every input preserves, `unallocated` preserves. -/
theorem unallocated_invariant {P : Store → LotMap → RuneUpdater → Prop} {tx : Transaction}
    (hstep : ∀ input ∈ tx.input, ∀ s t u s' t' u', P s t u →
      Unallocated input.previousOutput s t u s' t' u' → P s' t' u')
    {u u' : RuneUpdater} {t' : LotMap} {s s' : Store} (h₀ : P s ∅ u)
    (h : (u.unallocated tx).run s = .ok s' (t', u')) : P s' t' u' :=
  sync_foldlM_invariant (P := fun st s => P s st.1 st.2)
    (fun input hinput _ _ _ _ hP hrun =>
      hstep input hinput _ _ _ _ _ _ hP (unallocatedInput_eq_ok hrun)) h₀ h

/-! ### Mints -/

/-- The ways a call of `mint` ends. -/
inductive Minted (u : RuneUpdater) (id : RuneId) (s : Store) :
    Store → Option Nat → RuneUpdater → Prop
  /-- No such rune, or it cannot be minted now. -/
  | refused (h : ∀ e, s.runeIdToRuneEntry.get? id = some e → ∀ n, e.mintable u.height ≠ .ok n) :
      Minted u id s s none u
  /-- The entry counts one more mint. -/
  | minted {e : RuneEntry} {amount : Nat} (he : s.runeIdToRuneEntry.get? id = some e)
      (hm : e.mintable u.height = .ok amount) :
      Minted u id s (s.memInsertRuneIdToRuneEntry id { e with mints := e.mints + 1 })
        (some amount)
        { u with changeRecord := { u.changeRecord with
            mints := u.changeRecord.mints.insertNew id e.mints } }

/-- `mint` always returns. -/
theorem mint_run (u : RuneUpdater) (id : RuneId) (s : Store) :
    ∃ s' amount u', (u.mint id).run s = .ok s' (amount, u') ∧ Minted u id s s' amount u' := by
  cases he : s.runeIdToRuneEntry.get? id with
  | none =>
    refine ⟨s, none, u, ?_, .refused fun e h => ?_⟩
    · unfold mint gets
      rw [Sync.run_gets_bind]
      simp only [Store.memGetRuneIdToRuneEntry, he, Sync.run_pure]
    · rw [he] at h
      cases h
  | some e =>
    cases hm : e.mintable u.height with
    | error err =>
      refine ⟨s, none, u, ?_, .refused fun e' h n => ?_⟩
      · unfold mint gets
        rw [Sync.run_gets_bind]
        simp only [Store.memGetRuneIdToRuneEntry, he, hm, Sync.run_pure]
      · rw [he] at h
        cases h
        simp [hm]
    | ok amount =>
      refine ⟨_, _, _, ?_, .minted he hm⟩
      unfold mint gets modify
      rw [Sync.run_gets_bind]
      simp only [Store.memGetRuneIdToRuneEntry, he, hm]
      rfl

theorem mint_eq_ok {u u' : RuneUpdater} {id : RuneId} {s s' : Store} {amount : Option Nat}
    (h : (u.mint id).run s = .ok s' (amount, u')) : Minted u id s s' amount u' := by
  obtain ⟨s₁, amount₁, u₁, hrun, hm⟩ := mint_run u id s
  rw [h] at hrun
  cases hrun
  exact hm

/-! ### Etchings -/

/-- The ways a call of `etched` returns. -/
inductive Etched (lib : Crates) (u : RuneUpdater) (txIndex : Nat) (artifact : Artifact)
    (s : Store) : Store → Option (RuneId × Rune) → Prop
  | refused : Etched lib u txIndex artifact s s none
  | named {rune : Rune} (hname : etchingOf artifact = some (some rune))
      (hmin : ¬ rune.n < u.minimum.n) (hres : lib.isReserved rune = false)
      (hfree : s.runeToRuneId.get? rune = none) :
      Etched lib u txIndex artifact s s (some (⟨u.height, txIndex⟩, rune))
  | reserved (hname : etchingOf artifact = some none) :
      Etched lib u txIndex artifact s
        (s.memInsertStatisticReservedRunes u.height (s.memStatisticReservedRunes + 1))
        (some (⟨u.height, txIndex⟩, lib.reserved u.height txIndex))

/-- The ways a call of `etched` returns, with the checks that led there. -/
inductive EtchedWalk (lib : Crates) (u : RuneUpdater) (txIndex : Nat) (tx : Transaction)
    (artifact : Artifact) (ans : Answers) (s : Store) : Store → Option (RuneId × Rune) → Prop
  | absent (hname : etchingOf artifact = none) :
      EtchedWalk lib u txIndex tx artifact ans s s none
  | rejected {rune : Rune} (hname : etchingOf artifact = some (some rune))
      (hcond : rune.n < u.minimum.n ∨ lib.isReserved rune = true ∨
        (s.runeToRuneId.get? rune).isSome) :
      EtchedWalk lib u txIndex tx artifact ans s s none
  | walked {rune : Rune} {commits : Bool} {out : Option (RuneId × Rune)}
      (hname : etchingOf artifact = some (some rune)) (hmin : ¬ rune.n < u.minimum.n)
      (hres : lib.isReserved rune = false) (hfree : s.runeToRuneId.get? rune = none)
      (hcommit : Proc.Runs ans ((txCommitsToRune lib u tx rune).run s) (.ok s commits))
      (hout : out = if commits then some (⟨u.height, txIndex⟩, rune) else none) :
      EtchedWalk lib u txIndex tx artifact ans s s out
  | reserved (hname : etchingOf artifact = some none) :
      EtchedWalk lib u txIndex tx artifact ans s
        (s.memInsertStatisticReservedRunes u.height (s.memStatisticReservedRunes + 1))
        (some (⟨u.height, txIndex⟩, lib.reserved u.height txIndex))

theorem etched_walk {lib : Crates} {u : RuneUpdater} {txIndex : Nat} {tx : Transaction}
    {artifact : Artifact} {ans : Answers} {s s' : Store} {out : Option (RuneId × Rune)}
    (h : Proc.Runs ans ((etched lib u txIndex tx artifact).run s) (.ok s' out)) :
    EtchedWalk lib u txIndex tx artifact ans s s' out := by
  unfold etched at h
  split at h
  · next hname =>
    cases Proc.runs_ok.mp h
    exact .absent hname
  · next rune hname =>
    obtain ⟨s₁, taken, hget, h⟩ := Async.runs_liftM_bind_ok.mp h
    cases hget
    split at h
    · next hcond =>
      cases Proc.runs_ok.mp h
      exact .rejected hname hcond
    · next hcond =>
      -- nothing is written while the node is asked
      obtain ⟨s₂, commits, hcommit, hrest⟩ := Async.runs_bind_ok.mp h
      have hs₂ := (txCommitsToRune_oblivious lib u tx rune).readOnly.ok hcommit
      subst hs₂
      simp only [not_or, Store.memGetRuneToRuneId, Bool.not_eq_true,
        Option.isSome_eq_false_iff, Option.isNone_iff_eq_none] at hcond
      obtain ⟨hmin, hres, hfree⟩ := hcond
      split at hrest
      · next hyes =>
        cases Proc.runs_ok.mp hrest
        exact .walked hname hmin hres hfree hcommit (if_pos hyes).symm
      · next hno =>
        cases Proc.runs_ok.mp hrest
        exact .walked hname hmin hres hfree hcommit (if_neg hno).symm
  · next hname =>
    obtain ⟨s₁, reservedRunes, hget, h⟩ := Async.runs_liftM_bind_ok.mp h
    cases hget
    obtain ⟨s₂, _, hmod, h⟩ := Async.runs_liftM_bind_ok.mp h
    cases hmod
    cases Proc.runs_ok.mp h
    exact .reserved hname

theorem etched_runs {lib : Crates} {u : RuneUpdater} {txIndex : Nat} {tx : Transaction}
    {artifact : Artifact} {ans : Answers} {s s' : Store} {out : Option (RuneId × Rune)}
    (h : Proc.Runs ans ((etched lib u txIndex tx artifact).run s) (.ok s' out)) :
    Etched lib u txIndex artifact s s' out := by
  cases etched_walk h with
  | absent _ => exact .refused
  | rejected _ _ => exact .refused
  | @walked rune commits _ hname hmin hres hfree _ hout =>
    subst hout
    cases commits with
    | false => exact .refused
    | true => exact .named hname hmin hres hfree
  | reserved hname => exact .reserved hname

/-! ### The entry of an etched rune -/

/-- What `create_rune_entry` leaves in the maps. -/
def createdStore (u : RuneUpdater) (txid : Txid) (id : RuneId) (rune : Rune) (entry : RuneEntry)
    (s : Store) : Store :=
  (((s.memInsertRuneToRuneId rune id).memInsertTransactionIdToRune txid
    rune).memInsertStatisticRunes u.height (u.runes + 1)).memInsertRuneIdToRuneEntry id entry

/-- The updater after `create_rune_entry`. -/
def created (u : RuneUpdater) (txid : Txid) (id : RuneId) (rune : Rune) : RuneUpdater :=
  { u with
    runes := u.runes + 1
    changeRecord := { u.changeRecord with
      addedRunes := u.changeRecord.addedRunes ++ [(rune, id, txid)] } }

theorem createRuneEntry_eq_ok {u u' : RuneUpdater} {txid : Txid} {artifact : Artifact}
    {id : RuneId} {rune : Rune} {s s' : Store} :
    (u.createRuneEntry txid artifact id rune).run s = .ok s' u' ↔
      ∃ entry, newRuneEntry u txid artifact id rune = .ok entry ∧
        s' = createdStore u txid id rune entry s ∧ u' = created u txid id rune := by
  unfold createRuneEntry modify
  simp only [Sync.run_modify_bind, Sync.liftM_bind_eq_ok, Sync.run_pure, Result.ok.injEq]
  constructor
  · rintro ⟨entry, hentry, rfl, rfl⟩
    exact ⟨entry, hentry, rfl, rfl⟩
  · rintro ⟨entry, hentry, rfl, rfl⟩
    exact ⟨entry, hentry, rfl, rfl⟩

/-! ### The phases of `index_runes` -/

theorem indexMint_eq_ok {u u' : RuneUpdater} {artifact : Artifact} {t t' : LotMap}
    {s s' : Store} (h : (u.indexMint artifact t).run s = .ok s' (t', u')) :
    (artifact.mint = none ∧ s' = s ∧ t' = t ∧ u' = u) ∨
    ∃ id amount, artifact.mint = some id ∧ Minted u id s s' amount u' ∧
      (amount = none ∧ t' = t ∨ ∃ n, amount = some n ∧ t.addTo id n = .ok t') := by
  unfold indexMint at h
  split at h
  · next hnone =>
    cases h
    exact .inl ⟨hnone, rfl, rfl, rfl⟩
  · next id hsome =>
    obtain ⟨s₁, ⟨amount, u₁⟩, hmint, h⟩ := Sync.bind_eq_ok.mp h
    have hm := mint_eq_ok hmint
    refine .inr ⟨id, amount, hsome, ?_⟩
    cases amount with
    | none =>
      cases h
      exact ⟨hm, .inl ⟨rfl, rfl⟩⟩
    | some n =>
      obtain ⟨t₁, hadd, h⟩ := Sync.liftM_bind_eq_ok.mp h
      cases h
      exact ⟨hm, .inr ⟨n, rfl, hadd⟩⟩

/-- The parts of a completed call of `indexArtifact`. -/
theorem indexArtifact_runs {lib : Crates} {u u' : RuneUpdater} {txIndex : Nat} {tx : Transaction}
    {txid : Txid} {artifact : Artifact} {t t' : LotMap} {a' : List LotMap} {ans : Answers}
    {s s' : Store}
    (h : Proc.Runs ans ((indexArtifact lib u txIndex tx txid artifact t).run s)
      (.ok s' (t', a', u'))) :
    ∃ s₁ t₁ u₁ s₂ etched,
      (u.indexMint artifact t).run s = .ok s₁ (t₁, u₁) ∧
      Proc.Runs ans ((RuneUpdater.etched lib u₁ txIndex tx artifact).run s₁) (.ok s₂ etched) ∧
      indexRunestone lib tx artifact etched t₁ = .ok (t', a') ∧
      (etched = none ∧ s' = s₂ ∧ u' = u₁ ∨
        ∃ id rune entry, etched = some (id, rune) ∧
          newRuneEntry u₁ txid artifact id rune = .ok entry ∧
          s' = createdStore u₁ txid id rune entry s₂ ∧ u' = created u₁ txid id rune) := by
  unfold indexArtifact at h
  obtain ⟨s₁, ⟨t₁, u₁⟩, hmint, h⟩ := Async.runs_liftM_bind_ok.mp h
  obtain ⟨s₂, etched, hetched, h⟩ := Async.runs_bind_ok.mp h
  obtain ⟨⟨t₂, a₂⟩, hstone, h⟩ := Async.runs_except_bind_ok.mp h
  refine ⟨s₁, t₁, u₁, s₂, etched, hmint, hetched, ?_⟩
  -- only an etched rune is stored
  cases etched with
  | none =>
    cases Proc.runs_ok.mp h
    exact ⟨hstone, .inl ⟨rfl, rfl, rfl⟩⟩
  | some pair =>
    obtain ⟨id, rune⟩ := pair
    obtain ⟨s₄, u₄, hcreate, h⟩ := Async.runs_liftM_bind_ok.mp h
    cases Proc.runs_ok.mp h
    obtain ⟨entry, hentry, hs, hu⟩ := createRuneEntry_eq_ok.mp hcreate
    exact ⟨hstone, .inr ⟨id, rune, entry, rfl, hentry, hs, hu⟩⟩

/-! ### Outputs -/

/-- The ways the loop body over the outputs returns. -/
inductive OutpointUpdated (lib : Crates) (ord : HashOrder) (txIndex : Nat) (tx : Transaction)
    (txid : Txid) (balances : LotMap) (vout : Nat) (s : Store) (burned : LotMap)
    (u : RuneUpdater) : Store → LotMap → RuneUpdater → Prop
  | nothing (h : balances.size = 0) :
      OutpointUpdated lib ord txIndex tx txid balances vout s burned u s burned u
  | burns {txOut : TxOut} {burned' : LotMap} (hout : tx.output[vout]? = some txOut)
      (hburns : lib.burns txOut = true)
      (hadd : addAll burned (ord.iter (.allocated u.height txIndex vout) balances) = .ok burned') :
      OutpointUpdated lib ord txIndex tx txid balances vout s burned u s burned' u
  | created {txOut : TxOut} (hsize : balances.size ≠ 0) (hout : tx.output[vout]? = some txOut)
      (hburns : lib.burns txOut = false) :
      OutpointUpdated lib ord txIndex tx txid balances vout s burned u
        ((s.memInsertOutpointToRuneBalances ⟨txid, vout⟩
          ((ord.iter (.allocated u.height txIndex vout) balances).map
            fun e => ⟨e.1, e.2⟩)).memInsertOutpointToHeight ⟨txid, vout⟩ u.height)
        burned
        { u with changeRecord := { u.changeRecord with
            addedOutpoints := u.changeRecord.addedOutpoints ++ [⟨txid, vout⟩] } }

theorem updateOutpoint_eq_ok {lib : Crates} {ord : HashOrder} {txIndex : Nat} {tx : Transaction}
    {txid : Txid} {burned burned' : LotMap} {u u' : RuneUpdater} {balances : LotMap} {vout : Nat}
    {s s' : Store}
    (h : (updateOutpoint lib ord txIndex tx txid (burned, u) (balances, vout)).run s =
      .ok s' (burned', u')) :
    OutpointUpdated lib ord txIndex tx txid balances vout s burned u s' burned' u' := by
  unfold updateOutpoint at h
  dsimp only at h
  split at h
  · next hsize =>
    cases h
    exact .nothing hsize
  · next hsize =>
    obtain ⟨txOut, hout, h⟩ := Sync.liftM_bind_eq_ok.mp h
    rw [indexAt_eq_ok] at hout
    cases hburns : lib.burns txOut with
    | true =>
      rw [hburns] at h
      simp only [if_true] at h
      obtain ⟨burned₁, hadd, h⟩ := Sync.liftM_bind_eq_ok.mp h
      cases h
      exact .burns hout hburns hadd
    | false =>
      rw [hburns] at h
      cases h
      exact .created hsize hout hburns

/-- The parts of a completed `finishTransaction`. -/
theorem finishTransaction_eq_ok {lib : Crates} {ord : HashOrder} {u u' : RuneUpdater}
    {txIndex : Nat} {tx : Transaction} {txid : Txid} {artifact : Option Artifact} {t : LotMap}
    {a : List LotMap} {s s' : Store}
    (h : (finishTransaction lib ord u txIndex tx txid artifact t a).run s = .ok s' u') :
    ∃ a₁ burned burned₁ u₁ b,
      assignUnallocated lib tx artifact (ord.iter (.unallocated u.height txIndex) t) a =
        .ok (a₁, burned) ∧
      (a₁.zipIdx.foldlM (updateOutpoint lib ord txIndex tx txid) (burned, u)).run s =
        .ok s' (burned₁, u₁) ∧
      addAll u₁.burned (ord.iter (.txBurned u₁.height txIndex) burned₁) = .ok b ∧
      u' = { u₁ with burned := b } := by
  unfold finishTransaction at h
  obtain ⟨⟨a₁, burned⟩, hassign, h⟩ := Sync.liftM_bind_eq_ok.mp h
  obtain ⟨s₁, ⟨burned₁, u₁⟩, hout, h⟩ := Sync.bind_eq_ok.mp h
  obtain ⟨b, hadd, h⟩ := Sync.liftM_bind_eq_ok.mp h
  cases h
  exact ⟨a₁, burned, burned₁, u₁, b, hassign, hout, hadd, rfl⟩

/-- What every output preserves, the loop over the outputs preserves. -/
theorem outputs_invariant {lib : Crates} {ord : HashOrder} {txIndex : Nat} {tx : Transaction}
    {txid : Txid} {P : Store → LotMap → RuneUpdater → Prop} {a : List LotMap}
    (hstep : ∀ balances vout, (balances, vout) ∈ a.zipIdx → ∀ s burned u s' burned' u',
      P s burned u → OutpointUpdated lib ord txIndex tx txid balances vout s burned u s' burned' u' →
      P s' burned' u')
    {burned burned' : LotMap} {u u' : RuneUpdater} {s s' : Store} (h₀ : P s burned u)
    (h : (a.zipIdx.foldlM (updateOutpoint lib ord txIndex tx txid) (burned, u)).run s =
      .ok s' (burned', u')) : P s' burned' u' :=
  sync_foldlM_invariant (P := fun st s => P s st.1 st.2)
    (fun output houtput _ _ _ _ hP hrun =>
      hstep output.1 output.2 houtput _ _ _ _ _ _ hP (updateOutpoint_eq_ok hrun)) h₀ h

/-! ### One transaction -/

/-- The mint of a transaction, if it has one. -/
inductive MintPhase (lib : Crates) (tx : Transaction) (s : Store) (t : LotMap)
    (u : RuneUpdater) : Store → LotMap → RuneUpdater → Prop
  | absent (h : ∀ artifact, lib.decipher tx = some artifact → artifact.mint = none) :
      MintPhase lib tx s t u s t u
  | refused {artifact : Artifact} {id : RuneId} (hdec : lib.decipher tx = some artifact)
      (hmint : artifact.mint = some id)
      (h : ∀ e, s.runeIdToRuneEntry.get? id = some e → ∀ n, e.mintable u.height ≠ .ok n) :
      MintPhase lib tx s t u s t u
  | minted {artifact : Artifact} {id : RuneId} {amount : Nat} {s' : Store} {t' : LotMap}
      {u' : RuneUpdater} (hdec : lib.decipher tx = some artifact)
      (hmint : artifact.mint = some id) (h : Minted u id s s' (some amount) u')
      (ht : t.addTo id amount = .ok t') : MintPhase lib tx s t u s' t' u'

/-- Etching, premine, edicts and the new entry. -/
inductive EtchPhase (lib : Crates) (txIndex : Nat) (tx : Transaction) (txid : Txid) (s : Store)
    (t : LotMap) (u : RuneUpdater) : Store → LotMap → List LotMap → RuneUpdater → Prop
  | plain (hdec : lib.decipher tx = none) :
      EtchPhase lib txIndex tx txid s t u s t (List.replicate tx.output.length ∅) u
  | unetched {artifact : Artifact} {t' : LotMap} {a' : List LotMap}
      (hdec : lib.decipher tx = some artifact)
      (hstone : indexRunestone lib tx artifact none t = .ok (t', a')) :
      EtchPhase lib txIndex tx txid s t u s t' a' u
  | etched {artifact : Artifact} {id : RuneId} {rune : Rune} {s₁ : Store} {entry : RuneEntry}
      {t' : LotMap} {a' : List LotMap} (hdec : lib.decipher tx = some artifact)
      (hetched : Etched lib u txIndex artifact s s₁ (some (id, rune)))
      (hstone : indexRunestone lib tx artifact (some (id, rune)) t = .ok (t', a'))
      (hentry : newRuneEntry u txid artifact id rune = .ok entry) :
      EtchPhase lib txIndex tx txid s t u (createdStore u txid id rune entry s₁) t' a'
        (created u txid id rune)

theorem indexMint_phase {lib : Crates} {tx : Transaction} {artifact : Artifact} {u u' : RuneUpdater}
    {t t' : LotMap} {s s' : Store} (hdec : lib.decipher tx = some artifact)
    (h : (u.indexMint artifact t).run s = .ok s' (t', u')) : MintPhase lib tx s t u s' t' u' := by
  rcases indexMint_eq_ok h with ⟨hnone, rfl, rfl, rfl⟩ | ⟨id, amount, hsome, hm, hadd⟩
  · refine .absent fun a ha => ?_
    rw [hdec] at ha
    cases ha
    exact hnone
  · rcases hadd with ⟨rfl, rfl⟩ | ⟨n, rfl, hadd⟩
    · cases hm with
      | refused hr => exact .refused hdec hsome hr
    · exact .minted hdec hsome hm hadd

/-- The phases of a completed call of `indexRunes`: inputs, mint, etching, outputs. -/
theorem indexRunes_runs {lib : Crates} {ord : HashOrder} {u u' : RuneUpdater} {txIndex : Nat}
    {tx : Transaction} {txid : Txid} {ans : Answers} {s s' : Store}
    (h : Proc.Runs ans ((u.indexRunes lib ord txIndex tx txid).run s) (.ok s' u')) :
    ∃ s₁ t₁ u₁ s₂ t₂ u₂ s₃ t₃ a₃ u₃,
      (u.unallocated tx).run s = .ok s₁ (t₁, u₁) ∧
      MintPhase lib tx s₁ t₁ u₁ s₂ t₂ u₂ ∧
      EtchPhase lib txIndex tx txid s₂ t₂ u₂ s₃ t₃ a₃ u₃ ∧
      (finishTransaction lib ord u₃ txIndex tx txid (lib.decipher tx) t₃ a₃).run s₃ =
        .ok s' u' := by
  unfold indexRunes at h
  obtain ⟨s₁, ⟨t₁, u₁⟩, hunalloc, h⟩ := Async.runs_liftM_bind_ok.mp h
  obtain ⟨s₃, ⟨t₃, a₃, u₃⟩, hart, h⟩ := Async.runs_bind_ok.mp h
  have hfinish := Async.runs_liftM.mp h
  -- without an artifact there is neither a mint nor an etching
  cases hdec : lib.decipher tx with
  | none =>
    rw [hdec] at hart hfinish
    cases Proc.runs_ok.mp hart
    refine ⟨s₁, t₁, u₁, s₁, t₁, u₁, s₁, t₁, _, u₁, hunalloc, .absent fun a ha => ?_,
      .plain hdec, hfinish⟩
    rw [hdec] at ha
    cases ha
  | some artifact =>
    rw [hdec] at hart hfinish
    obtain ⟨s₂, t₂, u₂, s₂', etched, hmint, hetched, hstone, hrest⟩ := indexArtifact_runs hart
    refine ⟨s₁, t₁, u₁, s₂, t₂, u₂, s₃, t₃, a₃, u₃, hunalloc, indexMint_phase hdec hmint, ?_,
      hfinish⟩
    have hetched := etched_runs hetched
    rcases hrest with ⟨rfl, rfl, rfl⟩ | ⟨id, rune, entry, rfl, hentry, rfl, rfl⟩
    · cases hetched
      exact .unetched hdec hstone
    · exact .etched hdec hetched hstone hentry

end RuneUpdater

end RunesIndexer
