import RunesIndexer.Spec.Ledger

/-! # What a block does

    Rules to carry a property through `index_block`: through the phases of one
    transaction, through the transactions of a block, and through the flush at
    its end. The first use is the frame: inside a block no header and no change
    record is written and only the statistic rows of its own height are.
-/

namespace RunesIndexer

open Resumption MonadicFold

namespace RuneUpdater

/-! ### Rules -/

/-- A property of state and updater goes through a transaction phase by phase: `P`
    holds while inputs are spent, `M` after the mint, `Q` from the etching on. -/
theorem indexRunes_invariant {lib : Crates} {ord : HashOrder} {txIndex : Nat} {tx : Transaction}
    {txid : Txid} {ans : Answers} {P M Q : Store → RuneUpdater → Prop}
    (hspend : ∀ input ∈ tx.input, ∀ s t u s' t' u', P s u →
      Unallocated input.previousOutput s t u s' t' u' → P s' u')
    (hmint : ∀ s t u s' t' u', P s u → MintPhase lib tx s t u s' t' u' → M s' u')
    (hetch : ∀ s t u s' t' a' u', M s u → EtchPhase lib txIndex tx txid s t u s' t' a' u' →
      Q s' u')
    (houtput : ∀ balances vout s b u s' b' u', Q s u →
      OutpointUpdated lib ord txIndex tx txid balances vout s b u s' b' u' → Q s' u')
    (hburned : ∀ s u b, Q s u → Q s { u with burned := b })
    {u u' : RuneUpdater} {s s' : Store} (h₀ : P s u)
    (h : Proc.Runs ans ((u.indexRunes lib ord txIndex tx txid).run s) (.ok s' u')) : Q s' u' := by
  obtain ⟨s₁, t₁, u₁, s₂, t₂, u₂, s₃, t₃, a₃, u₃, hunalloc, hm, he, hfinish⟩ := indexRunes_runs h
  obtain ⟨a₄, burned, burned', u₄, b, -, hout, -, rfl⟩ := finishTransaction_eq_ok hfinish
  have h₁ : P s₁ u₁ := unallocated_invariant (P := fun s _ u => P s u)
    (fun input hinput s t u s' t' u' => hspend input hinput s t u s' t' u') h₀ hunalloc
  have h₃ : Q s₃ u₃ := hetch _ _ _ _ _ _ _ (hmint _ _ _ _ _ _ h₁ hm) he
  refine hburned _ _ _ ?_
  exact outputs_invariant (P := fun s _ u => Q s u)
    (fun balances vout _ s b u s' b' u' => houtput balances vout s b u s' b' u') h₃ hout

/-- A property that each kind of change preserves goes through a transaction. -/
theorem indexRunes_preserves {lib : Crates} {ord : HashOrder} {txIndex : Nat} {tx : Transaction}
    {txid : Txid} {ans : Answers} {P : Store → RuneUpdater → Prop}
    (hspend : ∀ o s t u s' t' u', P s u → Unallocated o s t u s' t' u' → P s' u')
    (hmint : ∀ id s u s' amount u', P s u → Minted u id s s' amount u' → P s' u')
    (hetch : ∀ artifact id rune entry s s₁ u, P s u →
      Etched lib u txIndex artifact s s₁ (some (id, rune)) →
      newRuneEntry u txid artifact id rune = .ok entry →
      P (createdStore u txid id rune entry s₁) (created u txid id rune))
    (houtput : ∀ balances vout s b u s' b' u', P s u →
      OutpointUpdated lib ord txIndex tx txid balances vout s b u s' b' u' → P s' u')
    (hburned : ∀ s u b, P s u → P s { u with burned := b })
    {u u' : RuneUpdater} {s s' : Store} (h₀ : P s u)
    (h : Proc.Runs ans ((u.indexRunes lib ord txIndex tx txid).run s) (.ok s' u')) : P s' u' := by
  refine indexRunes_invariant (P := P) (M := P) (Q := P) ?_ ?_ ?_ houtput hburned h₀ h
  · exact fun input _ s t u s' t' u' => hspend _ s t u s' t' u'
  · intro s t u s' t' u' hP hm
    cases hm with
    | absent _ => exact hP
    | refused _ _ _ => exact hP
    | minted _ _ hm _ => exact hmint _ _ _ _ _ _ hP hm
  · intro s t u s' t' a' u' hP he
    cases he with
    | plain _ => exact hP
    | unetched _ _ => exact hP
    | etched _ hetched _ hentry => exact hetch _ _ _ _ _ _ _ hP hetched hentry

end RuneUpdater

/-- A property indexed by the number of transactions done goes through a list of them. -/
theorem indexTransactions_invariant {lib : Crates} {ord : HashOrder} {ans : Answers}
    {P : Nat → Store → RuneUpdater → Prop} {l : List (Transaction × Txid)} {n : Nat}
    (hstep : ∀ i tx txid, l[i]? = some (tx, txid) → ∀ s u s' u', P (n + i) s u →
      Proc.Runs ans ((u.indexRunes lib ord (n + i) tx txid).run s) (.ok s' u') →
      P (n + i + 1) s' u')
    {u u' : RuneUpdater} {s s' : Store} (h₀ : P n s u)
    (h : Proc.Runs ans ((indexTransactions lib ord u n l).run s) (.ok s' u')) :
    P (n + l.length) s' u' := by
  induction l generalizing n u s with
  | nil =>
    cases Proc.runs_ok.mp h
    exact h₀
  | cons e l ih =>
    obtain ⟨tx, txid⟩ := e
    obtain ⟨s₁, u₁, h₁, h₂⟩ := Async.runs_bind_ok.mp h
    have hnext : P (n + 1) s₁ u₁ := hstep 0 tx txid rfl s u s₁ u₁ h₀ h₁
    have := ih (n := n + 1) (fun i tx txid hi s u s' u' hP hrun => by
      have := hstep (i + 1) tx txid (by simpa using hi) s u s' u'
      rw [show n + (i + 1) = n + 1 + i by omega] at this
      exact this hP hrun) hnext h₂
    rw [List.length_cons, show n + (l.length + 1) = n + 1 + l.length by omega]
    exact this

/-! ### The flush -/

namespace RuneUpdater

theorem updateBurned_eq_ok {record record' : ChangeRecord} {e : RuneId × Nat} {s s' : Store} :
    (updateBurned record e).run s = .ok s' record' ↔
      ∃ entry, s.runeIdToRuneEntry.get? e.1 = some entry ∧ entry.burned + e.2 < u128Bound ∧
        s' = s.memInsertRuneIdToRuneEntry e.1 { entry with burned := entry.burned + e.2 } ∧
        record' = { record with burned := record.burned.insertNew e.1 entry.burned } := by
  unfold updateBurned gets modify
  simp only [Sync.run_gets_bind, Sync.liftM_bind_eq_ok, Sync.run_modify_bind, Sync.run_pure,
    Result.ok.injEq, unwrap_eq_ok]
  constructor
  · rintro ⟨entry, hentry, burned, hburned, rfl, rfl⟩
    split at hburned
    · next hlt =>
      cases hburned
      exact ⟨entry, hentry, hlt, rfl, rfl⟩
    · cases hburned
  · rintro ⟨entry, hentry, hlt, rfl, rfl⟩
    exact ⟨entry, hentry, _, if_pos hlt, rfl, rfl⟩

theorem update_eq_ok {ord : HashOrder} {u : RuneUpdater} {s s' : Store} :
    (u.update ord).run s = .ok s' () ↔
      ∃ s₁ record, ((ord.iter (.blockBurned u.height) u.burned).foldlM updateBurned
        u.changeRecord).run s = .ok s₁ record ∧ s' = s₁.memInsertChangeRecord u.height record := by
  unfold update modify
  rw [Sync.bind_eq_ok]
  simp [eq_comm]

end RuneUpdater

/-! ### A whole block -/

/-- The state after the counters were copied to the new height. -/
def startBlock (height : Nat) (s : Store) : Store :=
  (s.memInsertStatisticRunes height s.memStatisticRunes).memInsertStatisticReservedRunes height
    s.memStatisticReservedRunes

/-- The parts of a completed `index_block`. -/
theorem indexBlock_runs {lib : Crates} {ord : HashOrder} {network : BitcoinNetwork} {height : Nat}
    {b : BlockData} {ans : Answers} {s s' : Store}
    (h : Proc.Runs ans ((indexBlock lib ord network height b).run s) (.ok s' ())) :
    ∃ s₁ u₁ s₂,
      Proc.Runs ans ((indexTransactions lib ord
        (RuneUpdater.new lib network height b.header.time s.memStatisticRunes) 0 b.txdata).run
          (startBlock height s)) (.ok s₁ u₁) ∧
      (u₁.update ord).run s₁ = .ok s₂ () ∧ s' = s₂.memInsertBlockHeader height b.header := by
  unfold indexBlock at h
  obtain ⟨s₀, runes, hinit, h⟩ := Async.runs_liftM_bind_ok.mp h
  cases hinit
  obtain ⟨s₁, u₁, htxs, h⟩ := Async.runs_bind_ok.mp h
  obtain ⟨s₂, _, hupdate, h⟩ := Async.runs_liftM_bind_ok.mp h
  cases Async.runs_liftM.mp h
  exact ⟨s₁, u₁, s₂, htxs, hupdate, rfl⟩

theorem mem_keys_startBlock {height : Nat} {s : Store} {k : Nat} :
    (k ∈ (startBlock height s).heightToStatisticRunes.keys ↔
      k = height ∨ k ∈ s.heightToStatisticRunes.keys) ∧
    (k ∈ (startBlock height s).heightToStatisticReservedRunes.keys ↔
      k = height ∨ k ∈ s.heightToStatisticReservedRunes.keys) :=
  ⟨Store.mem_keys_insert, Store.mem_keys_insert⟩

theorem startBlock_rowsEndAt {height : Nat} {s : Store} (h : s.RowsUpTo height) :
    (startBlock height s).RowsEndAt height where
  runes k hk := (mem_keys_startBlock.1.mp hk).elim (fun h => h.le) (h.runes k)
  reserved k hk := (mem_keys_startBlock.2.mp hk).elim (fun h => h.le) (h.reserved k)
  runesRow := mem_keys_startBlock.1.mpr (.inl rfl)
  reservedRow := mem_keys_startBlock.2.mpr (.inl rfl)

/-- Copying the counters changes no content. -/
theorem startBlock_ledger {height : Nat} {s : Store} (h : s.RowsUpTo height) :
    (startBlock height s).ledger = s.ledger := by
  have hrow := startBlock_rowsEndAt h
  ext : 1 <;> try rfl
  · exact Store.memStatisticRunes_of_last hrow.runes (FinMap.get?_insert_self _ _ _)
  · exact Store.memStatisticReservedRunes_of_last hrow.reserved (FinMap.get?_insert_self _ _ _)

/-! ### The frame -/

/-- What code inside the block at `height` leaves alone. -/
structure WithinBlock (height : Nat) (s s' : Store) : Prop where
  config : s'.config = s.config
  shuttingDown : s'.shuttingDown = s.shuttingDown
  headers : s'.heightToBlockHeader = s.heightToBlockHeader
  records : s'.heightToChangeRecord = s.heightToChangeRecord
  runeRows : ∀ k, k ≠ height →
    s'.heightToStatisticRunes.get? k = s.heightToStatisticRunes.get? k
  reservedRows : ∀ k, k ≠ height →
    s'.heightToStatisticReservedRunes.get? k = s.heightToStatisticReservedRunes.get? k
  rowsEnd : s.RowsEndAt height → s'.RowsEndAt height

namespace WithinBlock

theorem refl (height : Nat) (s : Store) : WithinBlock height s s :=
  ⟨rfl, rfl, rfl, rfl, fun _ _ => rfl, fun _ _ => rfl, id⟩

theorem trans {height : Nat} {s₁ s₂ s₃ : Store} (h : WithinBlock height s₁ s₂)
    (h' : WithinBlock height s₂ s₃) : WithinBlock height s₁ s₃ where
  config := h'.config.trans h.config
  shuttingDown := h'.shuttingDown.trans h.shuttingDown
  headers := h'.headers.trans h.headers
  records := h'.records.trans h.records
  runeRows k hk := (h'.runeRows k hk).trans (h.runeRows k hk)
  reservedRows k hk := (h'.reservedRows k hk).trans (h.reservedRows k hk)
  rowsEnd := h'.rowsEnd ∘ h.rowsEnd

theorem insertStatisticRunes (height n : Nat) (s : Store) :
    WithinBlock height s (s.memInsertStatisticRunes height n) where
  config := rfl
  shuttingDown := rfl
  headers := rfl
  records := rfl
  runeRows _ hk := FinMap.get?_insert_ne _ _ hk
  reservedRows _ _ := rfl
  rowsEnd h := h.insertStatisticRunes n

theorem insertStatisticReservedRunes (height n : Nat) (s : Store) :
    WithinBlock height s (s.memInsertStatisticReservedRunes height n) where
  config := rfl
  shuttingDown := rfl
  headers := rfl
  records := rfl
  runeRows _ _ := rfl
  reservedRows _ hk := FinMap.get?_insert_ne _ _ hk
  rowsEnd h := h.insertStatisticReservedRunes n

/-- A change of maps that the frame does not mention. -/
theorem of_eq {height : Nat} {s s' : Store} (hconfig : s'.config = s.config)
    (hflag : s'.shuttingDown = s.shuttingDown)
    (hheaders : s'.heightToBlockHeader = s.heightToBlockHeader)
    (hrecords : s'.heightToChangeRecord = s.heightToChangeRecord)
    (hrunes : s'.heightToStatisticRunes = s.heightToStatisticRunes)
    (hreserved : s'.heightToStatisticReservedRunes = s.heightToStatisticReservedRunes) :
    WithinBlock height s s' where
  config := hconfig
  shuttingDown := hflag
  headers := hheaders
  records := hrecords
  runeRows _ _ := by rw [hrunes]
  reservedRows _ _ := by rw [hreserved]
  rowsEnd h := ⟨hrunes ▸ h.runes, hreserved ▸ h.reserved, hrunes ▸ h.runesRow,
    hreserved ▸ h.reservedRow⟩

end WithinBlock

/-- The parts of the updater that are fixed during a block. -/
structure SameBlock (u u' : RuneUpdater) : Prop where
  height : u'.height = u.height
  minimum : u'.minimum = u.minimum
  blockTime : u'.blockTime = u.blockTime

theorem SameBlock.refl (u : RuneUpdater) : SameBlock u u := ⟨rfl, rfl, rfl⟩

/-- Two steps within a block are one. -/
theorem within_trans {s₁ s₂ s₃ : Store} {u₁ u₂ u₃ : RuneUpdater}
    (h : WithinBlock u₁.height s₁ s₂ ∧ SameBlock u₁ u₂)
    (h' : WithinBlock u₂.height s₂ s₃ ∧ SameBlock u₂ u₃) :
    WithinBlock u₁.height s₁ s₃ ∧ SameBlock u₁ u₃ := by
  obtain ⟨hw, hu⟩ := h
  obtain ⟨hw', hu'⟩ := h'
  rw [hu.height] at hw'
  exact ⟨hw.trans hw', hu'.height.trans hu.height, hu'.minimum.trans hu.minimum,
    hu'.blockTime.trans hu.blockTime⟩

namespace RuneUpdater

theorem Unallocated.within {o : OutPoint} {s s' : Store} {t t' : LotMap} {u u' : RuneUpdater}
    (h : Unallocated o s t u s' t' u') :
    WithinBlock u.height s s' ∧ SameBlock u u' := by
  cases h with
  | absent _ => exact ⟨.refl _ _, .refl u⟩
  | removed _ _ _ => exact ⟨.of_eq rfl rfl rfl rfl rfl rfl, ⟨rfl, rfl, rfl⟩⟩

theorem Minted.within {u u' : RuneUpdater} {id : RuneId} {s s' : Store} {amount : Option Nat}
    (h : Minted u id s s' amount u') : WithinBlock u.height s s' ∧ SameBlock u u' := by
  cases h with
  | refused _ => exact ⟨.refl _ _, .refl u⟩
  | minted _ _ => exact ⟨.of_eq rfl rfl rfl rfl rfl rfl, ⟨rfl, rfl, rfl⟩⟩

theorem Etched.within {lib : Crates} {u : RuneUpdater} {txIndex : Nat} {artifact : Artifact}
    {s s' : Store} {out : Option (RuneId × Rune)} (h : Etched lib u txIndex artifact s s' out) :
    WithinBlock u.height s s' := by
  cases h with
  | refused => exact .refl _ _
  | named _ _ _ _ => exact .refl _ _
  | reserved _ => exact .insertStatisticReservedRunes _ _ _

theorem createdStore_within (u : RuneUpdater) (txid : Txid) (id : RuneId) (rune : Rune)
    (entry : RuneEntry) (s : Store) :
    WithinBlock u.height s (createdStore u txid id rune entry s) := by
  unfold createdStore
  have hnames : WithinBlock u.height s
      ((s.memInsertRuneToRuneId rune id).memInsertTransactionIdToRune txid rune) :=
    .of_eq rfl rfl rfl rfl rfl rfl
  exact (hnames.trans (.insertStatisticRunes _ _ _)).trans (.of_eq rfl rfl rfl rfl rfl rfl)

theorem OutpointUpdated.within {lib : Crates} {ord : HashOrder} {txIndex : Nat}
    {tx : Transaction} {txid : Txid} {balances : LotMap} {vout : Nat} {s s' : Store}
    {b b' : LotMap} {u u' : RuneUpdater}
    (h : OutpointUpdated lib ord txIndex tx txid balances vout s b u s' b' u') :
    WithinBlock u.height s s' ∧ SameBlock u u' := by
  cases h with
  | nothing _ => exact ⟨.refl _ _, .refl u⟩
  | burns _ _ _ => exact ⟨.refl _ _, .refl u⟩
  | created _ _ _ => exact ⟨.of_eq rfl rfl rfl rfl rfl rfl, ⟨rfl, rfl, rfl⟩⟩

theorem Etched.id_eq {lib : Crates} {u : RuneUpdater} {txIndex : Nat} {artifact : Artifact}
    {s s' : Store} {id : RuneId} {rune : Rune}
    (h : Etched lib u txIndex artifact s s' (some (id, rune))) : id = ⟨u.height, txIndex⟩ := by
  cases h <;> rfl

/-- A new entry, its name, its etching and the new count. -/
theorem ledger_createdStore {u : RuneUpdater} {s : Store} (h : s.RowsEndAt u.height) (txid : Txid)
    (id : RuneId) (rune : Rune) (entry : RuneEntry) :
    (createdStore u txid id rune entry s).ledger = { s.ledger with
      entries := s.ledger.entries.insert id entry.reload
      names := s.ledger.names.insert rune id
      etchings := s.ledger.etchings.insert txid rune
      runes := u.runes + 1 } := by
  unfold createdStore
  have hrows : ((s.memInsertRuneToRuneId rune id).memInsertTransactionIdToRune txid
      rune).RowsEndAt u.height := ⟨h.runes, h.reserved, h.runesRow, h.reservedRow⟩
  rw [Store.ledger_memInsertRuneIdToRuneEntry, hrows.ledger_memInsertStatisticRunes,
    Store.ledger_memInsertTransactionIdToRune, Store.ledger_memInsertRuneToRuneId]

/-- A transaction stays within its block. -/
theorem indexRunes_within {lib : Crates} {ord : HashOrder} {u u' : RuneUpdater} {txIndex : Nat}
    {tx : Transaction} {txid : Txid} {ans : Answers} {s s' : Store}
    (h : Proc.Runs ans ((u.indexRunes lib ord txIndex tx txid).run s) (.ok s' u')) :
    WithinBlock u.height s s' ∧ SameBlock u u' := by
  refine indexRunes_preserves
    (P := fun s' u' => WithinBlock u.height s s' ∧ SameBlock u u') ?_ ?_ ?_ ?_ ?_
    ⟨.refl _ _, .refl u⟩ h
  · exact fun _ _ _ _ _ _ _ hP hun => within_trans hP hun.within
  · exact fun _ _ _ _ _ _ hP hm => within_trans hP hm.within
  · intro artifact id rune entry s₁ s₂ u₁ hP he _
    exact within_trans hP ⟨he.within.trans (createdStore_within _ _ _ _ _ _), ⟨rfl, rfl, rfl⟩⟩
  · exact fun _ _ _ _ _ _ _ _ hP ho => within_trans hP ho.within
  · exact fun _ _ _ hP => ⟨hP.1, hP.2.height, hP.2.minimum, hP.2.blockTime⟩

theorem updateBurned_within {record record' : ChangeRecord} {l : List (RuneId × Nat)}
    {height : Nat} {s s' : Store}
    (h : (l.foldlM updateBurned record).run s = .ok s' record') : WithinBlock height s s' := by
  refine sync_foldlM_invariant (P := fun _ s' => WithinBlock height s s') ?_ (.refl _ _) h
  intro e _ record₁ s₁ record₂ s₂ hw hrun
  obtain ⟨entry, _, _, rfl, _⟩ := updateBurned_eq_ok.mp hrun
  exact hw.trans (.of_eq rfl rfl rfl rfl rfl rfl)

end RuneUpdater

theorem indexTransactions_within {lib : Crates} {ord : HashOrder} {ans : Answers}
    {l : List (Transaction × Txid)} {n : Nat} {u u' : RuneUpdater} {s s' : Store}
    (h : Proc.Runs ans ((indexTransactions lib ord u n l).run s) (.ok s' u')) :
    WithinBlock u.height s s' ∧ SameBlock u u' := by
  refine indexTransactions_invariant
    (P := fun _ s' u' => WithinBlock u.height s s' ∧ SameBlock u u') ?_ ⟨.refl _ _, .refl u⟩ h
  intro i tx txid _ s₁ u₁ s₂ u₂ hP hrun
  exact within_trans hP (RuneUpdater.indexRunes_within hrun)

/-- What a completed `index_block` does to headers, records and statistic rows. -/
structure BlockWrites (height : Nat) (header : Header) (s s' : Store) : Prop where
  config : s'.config = s.config
  shuttingDown : s'.shuttingDown = s.shuttingDown
  headers : s'.heightToBlockHeader = s.heightToBlockHeader.insert height header
  records : ∃ record, s'.heightToChangeRecord = s.heightToChangeRecord.insert height record
  runeRows : ∀ k, k ≠ height →
    s'.heightToStatisticRunes.get? k = s.heightToStatisticRunes.get? k
  reservedRows : ∀ k, k ≠ height →
    s'.heightToStatisticReservedRunes.get? k = s.heightToStatisticReservedRunes.get? k
  rowsEnd : s.RowsBelow height → s'.RowsEndAt height

theorem indexBlock_writes {lib : Crates} {ord : HashOrder} {network : BitcoinNetwork}
    {height : Nat} {b : BlockData} {ans : Answers} {s s' : Store}
    (h : Proc.Runs ans ((indexBlock lib ord network height b).run s) (.ok s' ())) :
    BlockWrites height b.header s s' := by
  obtain ⟨s₁, u₁, s₂, htxs, hupdate, rfl⟩ := indexBlock_runs h
  obtain ⟨s₃, record, hfold, rfl⟩ := RuneUpdater.update_eq_ok.mp hupdate
  obtain ⟨hw, hu⟩ := indexTransactions_within htxs
  have hheight : u₁.height = height := hu.height
  have hw : WithinBlock height (startBlock height s) s₃ :=
    hw.trans (RuneUpdater.updateBurned_within hfold)
  refine ⟨hw.config, hw.shuttingDown, ?_, ⟨record, ?_⟩, fun k hk => ?_, fun k hk => ?_,
    fun hbelow => ?_⟩
  · exact congrArg (·.insert height b.header) hw.headers
  · rw [hheight]
    exact congrArg (·.insert height record) hw.records
  · exact (hw.runeRows k hk).trans (FinMap.get?_insert_ne _ _ hk)
  · exact (hw.reservedRows k hk).trans (FinMap.get?_insert_ne _ _ hk)
  · exact ⟨(hw.rowsEnd (startBlock_rowsEndAt hbelow.upTo)).runes,
      (hw.rowsEnd (startBlock_rowsEndAt hbelow.upTo)).reserved,
      (hw.rowsEnd (startBlock_rowsEndAt hbelow.upTo)).runesRow,
      (hw.rowsEnd (startBlock_rowsEndAt hbelow.upTo)).reservedRow⟩

end RunesIndexer
