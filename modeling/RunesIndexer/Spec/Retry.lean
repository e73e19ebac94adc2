import RunesIndexer.Spec.Advance
import RunesIndexer.Spec.Canonical

/-! # Retrying a failed block

    A block that failed in one of its transactions is indexed again from the state it
    left. The result is that of an undisturbed `index_block` exactly when the failed
    attempt was quiet: the change record of a block tells from what ledger the block
    was indexed, so equal results come from ledgers of which neither is further than
    the other.
-/

namespace RunesIndexer

open Resumption MonadicFold RuneUpdater

/-! ### What a change record tells about the start -/

/-- The record `r` of a block that led from `L₀` to `L` tells which outpoints were taken,
    what the mints were and how many runes are new. -/
structure Recorded (height : Nat) (txids : List Txid) (L₀ L : Ledger) (r : ChangeRecord) : Prop where
  kept : ∀ o, o.txid ∉ txids → o ∉ r.removedOutpoints.map Prod.fst →
    L.balances.get? o = L₀.balances.get? o
  taken : ∀ o, o.txid ∉ txids → o ∈ r.removedOutpoints.map Prod.fst → L₀.balances.get? o ≠ none
  minted : ∀ id n, id.block < height → r.mints.get? id = some n → L₀.mintsOf id = n
  unminted : ∀ id, id.block < height → r.mints.get? id = none → L.mintsOf id = L₀.mintsOf id
  etched : L.runes = L₀.runes + r.addedRunes.length

namespace Recorded

variable {height : Nat} {txids : List Txid} {L₀ L L' : Ledger} {r r' : ChangeRecord}

theorem new (height : Nat) (txids : List Txid) (L : Ledger) :
    Recorded height txids L L ChangeRecord.new where
  kept _ _ _ := rfl
  taken _ _ h := by simp [ChangeRecord.new] at h
  minted _ _ _ h := by simp [ChangeRecord.new] at h
  unminted _ _ _ := rfl
  etched := rfl

/-- Of ledgers and record, only some parts matter. -/
theorem congr (h : Recorded height txids L₀ L r)
    (hbalances : ∀ o, o.txid ∉ txids → L'.balances.get? o = L.balances.get? o)
    (hmints : ∀ id, id.block < height → L'.mintsOf id = L.mintsOf id) (hruns : L'.runes = L.runes)
    (hremoved : r'.removedOutpoints = r.removedOutpoints) (hrmints : r'.mints = r.mints)
    (hadded : r'.addedRunes = r.addedRunes) : Recorded height txids L₀ L' r' where
  kept o ho hnot := (hbalances o ho).trans (h.kept o ho (hremoved ▸ hnot))
  taken o ho hmem := h.taken o ho (hremoved ▸ hmem)
  minted id n hid hn := h.minted id n hid (hrmints ▸ hn)
  unminted id hid hn := (hmints id hid).trans (h.unminted id hid (hrmints ▸ hn))
  etched := by rw [hruns, hadded, h.etched]

variable {lib : Crates} {tx : Transaction} {txid : Txid} {t t' : LotMap} {u u' : RuneUpdater}

theorem spend {o : OutPoint} (h : Recorded height txids L₀ L u.changeRecord)
    (hstep : Spend o (L, t, u) (L', t', u')) : Recorded height txids L₀ L' u'.changeRecord := by
  cases hstep with
  | absent _ => exact h
  | removed hb _ _ =>
    refine ⟨fun o' ho' hnot => ?_, fun o' ho' hmem => ?_, h.minted, h.unminted, h.etched⟩
    · rw [List.map_append, List.mem_append, not_or] at hnot
      have hne : o' ≠ o := fun heq => hnot.2 (by simp [heq])
      exact (FinMap.get?_erase _ _ _).trans ((if_neg hne).trans (h.kept o' ho' hnot.1))
    · by_cases hold : o' ∈ u.changeRecord.removedOutpoints.map Prod.fst
      · exact h.taken o' ho' hold
      · -- the outpoint is taken now, so it has been there from the start
        rw [List.map_append, List.mem_append] at hmem
        have heq : o' = o := by simpa [hold] using hmem
        rw [← h.kept o' ho' hold, heq, hb]
        exact Option.some_ne_none _

theorem mint (h : Recorded height txids L₀ L u.changeRecord)
    (hstep : Mint lib tx (L, t, u) (L', t', u')) :
    Recorded height txids L₀ L' u'.changeRecord := by
  cases hstep with
  | absent _ => exact h
  | refused _ _ _ => exact h
  | @minted _ _ _ _ _ id e _ _ _ he _ _ =>
    refine ⟨h.kept, h.taken, fun id' n hid hn => ?_, fun id' hid hn => ?_, h.etched⟩
    · dsimp only at hn
      rw [FinMap.get?_insertNew] at hn
      by_cases heq : id' = id
      · subst heq
        rw [if_pos rfl] at hn
        -- the first mint of the block is the one that records the count
        cases hold : u.changeRecord.mints.get? id' with
        | some m =>
          rw [hold] at hn
          exact h.minted id' n hid (hold.trans hn)
        | none =>
          rw [hold] at hn
          cases hn
          exact (h.unminted id' hid hold).symm.trans (Ledger.mintsOf_of_get? he)
      · rw [if_neg heq] at hn
        exact h.minted id' n hid hn
    · dsimp only at hn
      rw [FinMap.get?_insertNew] at hn
      rw [Ledger.mintsOf_insert]
      by_cases heq : id' = id
      · rw [if_pos heq] at hn
        cases hn
      · rw [if_neg heq] at hn ⊢
        exact h.unminted id' hid hn

theorem etch {txIndex : Nat} {a : List LotMap} (h : Recorded height txids L₀ L u.changeRecord)
    (hheight : u.height = height) (hruns : u.runes = L.runes)
    (hstep : Etch lib txIndex tx txid (L, t, u) a (L', t', u')) :
    Recorded height txids L₀ L' u'.changeRecord ∧ u'.runes = L'.runes := by
  cases hstep with
  | plain _ => exact ⟨h, hruns⟩
  | unetched _ _ => exact ⟨h, hruns⟩
  | etched _ _ _ _ =>
    refine ⟨⟨h.kept, h.taken, h.minted, fun id hid hn => ?_, ?_⟩, rfl⟩
    · have hne : id ≠ ⟨u.height, txIndex⟩ := by
        intro heq
        rw [heq, hheight] at hid
        exact lt_irrefl _ hid
      rw [← h.unminted id hid hn]
      unfold Ledger.mintsOf
      rw [FinMap.get?_insert_ne _ _ hne]
    · show u.runes + 1 = L₀.runes + (u.changeRecord.addedRunes ++ [_]).length
      rw [List.length_append, List.length_singleton, hruns, h.etched, Nat.add_assoc]

theorem output {m : LotMap × Nat} (h : Recorded height txids L₀ L u.changeRecord)
    (htxid : txid ∈ txids) (hstep : Output lib tx txid m (L, t, u) (L', t', u')) :
    Recorded height txids L₀ L' u'.changeRecord := by
  cases hstep with
  | nothing _ => exact h
  | burns _ _ _ => exact h
  | @created _ vout _ _ _ _ _ _ _ _ _ =>
    refine h.congr (fun o ho => ?_) (fun _ _ => rfl) rfl rfl rfl rfl
    have hne : o ≠ ⟨txid, vout⟩ := fun heq => ho (heq ▸ htxid)
    exact FinMap.get?_insert_ne _ _ hne

theorem indexRunes {i : Nat} (h : Recorded height txids L₀ L u.changeRecord)
    (hheight : u.height = height) (hruns : u.runes = L.runes) (htxid : txid ∈ txids)
    (hstep : TxPhases lib i tx txid L u L' u') :
    Recorded height txids L₀ L' u'.changeRecord ∧ u'.runes = L'.runes := by
  refine hstep.invariant
    (P := fun L u => u.height = height ∧ Recorded height txids L₀ L u.changeRecord ∧ u.runes = L.runes)
    (M := fun L u => u.height = height ∧ Recorded height txids L₀ L u.changeRecord ∧ u.runes = L.runes)
    (Q := fun L u => Recorded height txids L₀ L u.changeRecord ∧ u.runes = L.runes)
    ?_ ?_ ?_ ?_ (fun _ _ _ hQ => hQ) ⟨hheight, h, hruns⟩
  · rintro input - L t u L' t' u' ⟨hu, hP, hcount⟩ hspend
    refine ⟨?_, hP.spend hspend, ?_⟩
    · cases hspend <;> exact hu
    · cases hspend <;> exact hcount
  · rintro L t u L' t' u' ⟨hu, hP, hcount⟩ hmint
    refine ⟨?_, hP.mint hmint, ?_⟩
    · cases hmint <;> exact hu
    · cases hmint <;> exact hcount
  · rintro L t u a L' t' u' ⟨hu, hP, hcount⟩ hetch
    exact hP.etch hu hcount hetch
  · rintro m L b u L' b' u' ⟨hP, hcount⟩ houtput
    refine ⟨hP.output htxid houtput, ?_⟩
    cases houtput <;> exact hcount

/-- Equal results with equal records come from ledgers of which neither is further. -/
theorem back {L₀' : Ledger} (h : Recorded height txids L₀ L r)
    (h' : Recorded height txids L₀' L' r') (hL : L' = L) (hr : SameRecord r' r) :
    Advances height txids L₀' L₀ where
  balances o ho hnone := by
    have hremoved : r'.removedOutpoints.map Prod.fst = r.removedOutpoints.map Prod.fst := by
      have := congrArg (List.map Prod.fst) hr.removedOutpoints
      simpa only [List.map_map, Function.comp_def, unordered] using this
    -- the second block did not take the outpoint, so neither did the first
    have hnot' : o ∉ r'.removedOutpoints.map Prod.fst := fun hmem => h'.taken o ho hmem hnone
    have hnot : o ∉ r.removedOutpoints.map Prod.fst := hremoved ▸ hnot'
    rw [← h.kept o ho hnot, ← hL, h'.kept o ho hnot', hnone]
  mints id hid := by
    cases hn : r.mints.get? id with
    | some n =>
      have hn' : r'.mints.get? id = some n := hr.mints ▸ hn
      rw [h.minted id n hid hn, h'.minted id n hid hn']
    | none =>
      have hn' : r'.mints.get? id = none := hr.mints ▸ hn
      rw [← h.unminted id hid hn, ← h'.unminted id hid hn', hL]
  runes := by
    have hnew := h.etched
    have hnew' := h'.etched
    rw [hL, hr.addedRunes, hnew] at hnew'
    omega

end Recorded

/-! ### Blocks -/

section

variable {lib : Crates} {network : BitcoinNetwork} {height : Nat} {ans : Answers} {ord : HashOrder}
  {s s' : Store}

/-- The flush only adds the burned counts. -/
theorem RuneUpdater.update_recorded {u : RuneUpdater} {txids : List Txid} {L₀ : Ledger}
    (h : Recorded height txids L₀ s.ledger u.changeRecord)
    (hrun : (u.update ord).run s = .ok s' ()) :
    ∃ r, s'.heightToChangeRecord.get? u.height = some r ∧
      Recorded height txids L₀ s'.ledger r := by
  obtain ⟨s₁, record, hfold, rfl⟩ := update_eq_ok.mp hrun
  refine ⟨record, FinMap.get?_insert_self _ _ _, ?_⟩
  rw [Store.ledger_memInsertChangeRecord]
  refine sync_foldlM_invariant (P := fun r s => Recorded height txids L₀ s.ledger r) ?_ h hfold
  intro e _ r s r' s' hP hstep
  obtain ⟨entry, hentry, -, rfl, rfl⟩ := updateBurned_eq_ok.mp hstep
  refine hP.congr (fun _ _ => rfl) (fun id _ => ?_) rfl rfl rfl rfl
  rw [Store.ledger_memInsertRuneIdToRuneEntry, Ledger.mintsOf_insert]
  split
  · next heq =>
    rw [heq, Ledger.mintsOf_of_get? hentry]
    rfl
  · rfl

/-- A completed block leaves a record of where it began. -/
theorem indexBlock_recorded {b : BlockData} (hrows : s.RowsUpTo height)
    (h : Proc.Runs ans ((indexBlock lib ord network height b).run s) (.ok s' ())) :
    ∃ r, s'.heightToChangeRecord.get? height = some r ∧
      Recorded height b.txids s.ledger s'.ledger r := by
  obtain ⟨s₁, u₁, s₂, htxs, hupdate, rfl⟩ := indexBlock_runs h
  obtain ⟨hrecorded, -⟩ := indexTransactions_ledger
    (P := fun _ L u => Recorded height b.txids s.ledger L u.changeRecord ∧ u.runes = L.runes)
    hrows ⟨.new _ _ _, rfl⟩
    (fun i tx txid hget L u L' u' hheight hP hstep =>
      hP.1.indexRunes hheight hP.2 (List.mem_map_of_mem (List.mem_of_getElem? hget)) hstep) htxs
  obtain ⟨r, hr, hrecorded⟩ := update_recorded hrecorded hupdate
  rw [(indexTransactions_within htxs).2.height] at hr
  exact ⟨r, hr, hrecorded⟩

end

/-! ### Runs -/

/-- At the end of a run, everything in the ledger is older than the next block. -/
theorem Run.settled {lib : Crates} {network : BitcoinNetwork} {node : Node}
    {chain : List BlockData} {s : Store} {b : BlockData}
    (hdistinct : DistinctTxids (chain ++ [b])) (h : Run lib network node DistinctTxids chain s) :
    Settled (lib.firstRuneHeight network + chain.length) b.txids s.ledger := by
  obtain ⟨-, hplaced⟩ := h.conserved
  refine ⟨fun o ho hmem => ?_, fun id hid => ?_⟩
  · obtain ⟨d, hd, htxid⟩ := hplaced.outpoints o ho
    refine hdistinct.fresh hmem ?_
    rw [← map_txid_located (lib.firstRuneHeight network), ← htxid]
    exact List.mem_map_of_mem hd
  · obtain ⟨d, hd, rfl⟩ := hplaced.entries id hid
    exact mem_located_block hd

theorem SameRecordAt.symm {height : Nat} {s s' : Store} (h : SameRecordAt height s s') :
    SameRecordAt height s' s := by
  obtain ⟨r, r', hr, hr', hsame⟩ := h
  exact ⟨r', r, hr', hr, hsame.symm⟩

/-- A block that failed is indexed again, each call now with its one answer. The result is
    that of an undisturbed `index_block` if and only if the failed attempt was quiet. -/
theorem Run.retry {lib : Crates} {network : BitcoinNetwork} {node : Node} {chain : List BlockData}
    {b : BlockData} {s s₁ s₂ : Store} {ans₁ ans : Answers} {ord₁ ord₂ : HashOrder} {e : Error}
    (hdistinct : DistinctTxids (chain ++ [b])) (h : Run lib network node DistinctTxids chain s)
    (hfun : ∀ q a a', ans q a → ans q a' → a = a')
    (hans : ∀ q a, ans₁ q a → ans q a ∨ Answers.IsError q a)
    (hundisturbed : Proc.Runs ans
      ((indexBlock lib ord₂ network (s.nextBlock lib network).1 b).run s) (.ok s₂ ()))
    (hfailed : Proc.Runs ans₁
      ((indexBlock lib ord₁ network (s.nextBlock lib network).1 b).run s) (.err s₁ e)) :
    (∃ k, StopsIn lib ord₁ network (s.nextBlock lib network).1 b ans₁ s k (.failed s₁ e)) ∧
    ∀ k, StopsIn lib ord₁ network (s.nextBlock lib network).1 b ans₁ s k (.failed s₁ e) →
      ∀ ord, (∃ s₃, Proc.Runs ans
          ((indexBlock lib ord network (s₁.nextBlock lib network).1 b).run s₁) (.ok s₃ ()) ∧
          s₃.ledger = s₂.ledger ∧ SameRecordAt (s.nextBlock lib network).1 s₃ s₂) ↔
        Quiet lib network (s.nextBlock lib network).1 ans s b k := by
  refine ⟨indexBlock_stops (x := .failed s₁ e) hfailed, fun k hk ord => ?_⟩
  obtain ⟨lo, hwin⟩ := h.window
  have hpaired := h.paired
  have hset := h.settled hdistinct
  rw [hwin.nextBlock] at hundisturbed hk ⊢
  dsimp only at hundisturbed hk ⊢
  have hrows := hwin.rowsBelow.upTo
  have hwithin := hk.within
  have hrows₁ : s₁.RowsUpTo (lib.firstRuneHeight network + chain.length) :=
    (hwithin.rowsEnd (startBlock_rowsEndAt hrows)).upTo
  -- no header was written, so the retry is for the same height
  have hnext : (s₁.nextBlock lib network).1 = lib.firstRuneHeight network + chain.length := by
    have hheaders : s₁.heightToBlockHeader = s.heightToBlockHeader := hwithin.headers
    have := congrArg Prod.fst hwin.nextBlock
    unfold Store.nextBlock Store.memLatestBlock at this ⊢
    rw [hheaders]
    exact this
  rw [hnext]
  constructor
  -- equal records undo to equal starts, so nothing can have been left behind
  · rintro ⟨s₃, hretried, hledger, hrecord⟩
    obtain ⟨r, hr, hrecorded⟩ := indexBlock_recorded hrows hundisturbed
    obtain ⟨r', hr', hrecorded'⟩ := indexBlock_recorded hrows₁ hretried
    obtain ⟨r₁, r₂, hr₁, hr₂, hsame⟩ := hrecord
    rw [hr'] at hr₁
    rw [hr] at hr₂
    cases hr₁
    cases hr₂
    exact hk.quiet_of_back hfun hans hrows hpaired hset (hrecorded.back hrecorded' hledger hsame)
  -- nothing was left behind, so the retry runs from the same ledger
  · intro hquiet
    have hstate : s₁ = startBlock _ s := hk.state_of_quiet hans hrows hpaired hquiet
    have hledger : s.ledger = s₁.ledger := by rw [hstate, startBlock_ledger hrows]
    obtain ⟨s₃, ⟨⟩, hretried, hsame, hrecord⟩ :=
      (indexBlock_sim lib ord₂ ord network _ b hrows hrows₁ hledger).runs_ok hundisturbed
    exact ⟨s₃, hretried, hsame.ledger.symm, hrecord.symm⟩

/-- The sample run of one block, and what its next block does undisturbed, when the node
    refuses a call, and when it is tried again after that. -/
theorem retry_exec {b : BlockData} {P : Store → Store → Store → Store → Bool}
    (h : (indexChain Sample.crates Sample.order .regtest Sample.reply [Sample.etchBlock]
      (Store.empty Sample.config)).any (fun s =>
        (((indexBlock Sample.crates Sample.order .regtest 1 b).run s).resultWith
          Sample.answer).returns fun s₂ _ =>
        (((indexBlock Sample.crates Sample.order .regtest 1 b).run s).resultWith
          Sample.reply).fails fun s₁ _ =>
        (((indexBlock Sample.crates Sample.order .regtest 1 b).run s₁).resultWith
          Sample.answer).returns fun s₃ _ => P s s₁ s₂ s₃) = true) :
    ∃ s s₁ s₂ s₃ e,
      Run Sample.crates .regtest Sample.replies DistinctTxids [Sample.etchBlock] s ∧
      Proc.Runs (Answers.only Sample.answer)
        ((indexBlock Sample.crates Sample.order .regtest 1 b).run s) (.ok s₂ ()) ∧
      Proc.Runs (Answers.only Sample.reply)
        ((indexBlock Sample.crates Sample.order .regtest 1 b).run s) (.err s₁ e) ∧
      Proc.Runs (Answers.only Sample.answer)
        ((indexBlock Sample.crates Sample.order .regtest 1 b).run s₁) (.ok s₃ ()) ∧
      P s s₁ s₂ s₃ = true := by
  obtain ⟨s, hs, h⟩ := (Option.any_eq_true _ _).mp h
  obtain ⟨s₂, _, h₂, h⟩ := Result.returns_iff.mp h
  obtain ⟨s₁, e, h₁, h⟩ := Result.fails_iff.mp h
  obtain ⟨s₃, _, h₃, hP⟩ := Result.returns_iff.mp h
  -- the node of the sample answers the same at every chain
  have hnode : ∀ (chain : List BlockData) q, Sample.replies chain q (Sample.reply q) :=
    fun _ _ => rfl
  have hrun : Run Sample.crates .regtest Sample.replies DistinctTxids ([] ++ [Sample.etchBlock]) s :=
    run_of_indexChain hnode (fun n => by rw [List.take_of_length_le (by simp)]; decide)
      (.init Sample.config) hs
  exact ⟨s, s₁, s₂, s₃, e, hrun, h₂ ▸ runs_only Sample.answer _, h₁ ▸ runs_only Sample.reply _,
    h₃ ▸ runs_only Sample.answer _, hP⟩

/-- A call that the sample node refuses at first is answered later. -/
theorem answer_of_reply (q : Call) (a : Reply q) (h : Answers.only Sample.reply q a) :
    Answers.only Sample.answer q a ∨ Answers.IsError q a := by
  cases q with
  | getRawTransactionInfo txid => exact .inr ⟨.rpc, h⟩
  | getBlockHeaderInfo hash => exact .inr ⟨.rpc, h⟩
  | getBlockHash network height => exact .inl h
  | innerGetBlock hash => exact .inl h
  | newBlockDetected subscriber height hash time txids => exact .inl h

/-- Nothing happens in the block before its only transaction asks the node. -/
theorem quiet_nameBlock {s : Store} (h : s.outpointToRuneBalances.get? ⟨9, 0⟩ = none)
    (ans : Answers) : Quiet Sample.crates .regtest 1 ans s Sample.nameBlock 0 where
  before := nofun
  next := by
    rintro e he
    obtain rfl : (Sample.nameTx, 3) = e := Option.some.inj he
    refine ⟨fun input hinput => ?_, fun artifact id e hdec hmint => ?_⟩
    · obtain rfl : input = Sample.spend 9 0 [Sample.commitment Sample.name] :=
        List.mem_singleton.mp hinput
      exact h
    · cases hdec
      cases hmint

theorem Run.retry_sample :
    ∃ s s₁ s₂ s₃ e,
      Run Sample.crates .regtest Sample.replies DistinctTxids [Sample.etchBlock] s ∧
      Proc.Runs (Answers.only Sample.answer)
        ((indexBlock Sample.crates Sample.order .regtest 1 Sample.nameBlock).run s) (.ok s₂ ()) ∧
      Proc.Runs (Answers.only Sample.reply)
        ((indexBlock Sample.crates Sample.order .regtest 1 Sample.nameBlock).run s) (.err s₁ e) ∧
      s₃.ledger = s₂.ledger ∧ SameRecordAt 1 s₃ s₂ := by
  obtain ⟨s, s₁, s₂, -, e, hrun, h₂, h₁, -, hP⟩ := retry_exec (b := Sample.nameBlock)
    (P := fun s _ _ _ => s.outpointToRuneBalances.get? ⟨9, 0⟩ = none ∧
      (s.nextBlock Sample.crates .regtest).1 = 1) (by decide)
  obtain ⟨hfree, hnext⟩ : s.outpointToRuneBalances.get? ⟨9, 0⟩ = none ∧
    (s.nextBlock Sample.crates .regtest).1 = 1 := by simpa using hP
  have hretry := Run.retry (b := Sample.nameBlock) (by decide) hrun
    (Answers.only_functional Sample.answer) answer_of_reply (hnext.symm ▸ h₂) (hnext.symm ▸ h₁)
  rw [hnext] at hretry
  obtain ⟨⟨k, hk⟩, hiff⟩ := hretry
  -- the block has one transaction, in which it fails
  obtain rfl : k = 0 := by
    obtain ⟨tx, txid, _, _, hget, -⟩ := hk
    have := (List.getElem?_eq_some_iff.mp hget).1
    have hlen : Sample.nameBlock.txdata.length = 1 := rfl
    omega
  obtain ⟨s₃, -, hledger, hrecord⟩ := (hiff 0 hk Sample.order).mpr (quiet_nameBlock hfree _)
  exact ⟨s, s₁, s₂, s₃, e, hrun, h₂, h₁, hledger, hrecord⟩

/-- A mint before the failing transaction is counted twice. -/
theorem Run.retry_mints_twice :
    ∃ s s₁ s₂ s₃ e,
      Run Sample.crates .regtest Sample.replies DistinctTxids [Sample.etchBlock] s ∧
      Proc.Runs (Answers.only Sample.answer)
        ((indexBlock Sample.crates Sample.order .regtest 1 Sample.mintAndNameBlock).run s) (.ok s₂ ()) ∧
      Proc.Runs (Answers.only Sample.reply)
        ((indexBlock Sample.crates Sample.order .regtest 1 Sample.mintAndNameBlock).run s) (.err s₁ e) ∧
      Proc.Runs (Answers.only Sample.answer)
        ((indexBlock Sample.crates Sample.order .regtest 1 Sample.mintAndNameBlock).run s₁) (.ok s₃ ()) ∧
      s₂.ledger.mintsOf Sample.runeId = 1 ∧ s₃.ledger.mintsOf Sample.runeId = 2 := by
  obtain ⟨s, s₁, s₂, s₃, e, hrun, h₂, h₁, h₃, hP⟩ := retry_exec (b := Sample.mintAndNameBlock)
    (P := fun _ _ s₂ s₃ => s₂.ledger.mintsOf Sample.runeId = 1 ∧
      s₃.ledger.mintsOf Sample.runeId = 2) (by decide)
  exact ⟨s, s₁, s₂, s₃, e, hrun, h₂, h₁, h₃, by simpa using hP⟩

end RunesIndexer
