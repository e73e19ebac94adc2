import RunesIndexer.Spec.MidBlock
import RunesIndexer.Spec.Run

/-! # Two orders of iteration

    Balance lists are stored in the order in which a hash map was walked through, so two
    runs with different orders end in stores that are the same but for the order of these
    lists. Whatever the orders are from then on, blocks and rollbacks do the same from both.
-/

namespace RunesIndexer

open Resumption MonadicFold RuneUpdater

/-! ### Stores that are the same but for the order of lists -/

/-- Every map is the same; a balance list is a multiset, in outpoints and in records. -/
structure SameStore (s t : Store) : Prop where
  config : s.config = t.config
  shuttingDown : s.shuttingDown = t.shuttingDown
  headers : s.heightToBlockHeader = t.heightToBlockHeader
  reservedRows : s.heightToStatisticReservedRunes = t.heightToStatisticReservedRunes
  runeRows : s.heightToStatisticRunes = t.heightToStatisticRunes
  balances : s.outpointToRuneBalances.mapVal Multiset.ofList =
    t.outpointToRuneBalances.mapVal Multiset.ofList
  entries : s.runeIdToRuneEntry = t.runeIdToRuneEntry
  names : s.runeToRuneId = t.runeToRuneId
  etchings : s.transactionIdToRune = t.transactionIdToRune
  outpointHeights : s.outpointToHeight = t.outpointToHeight
  records : ∀ height, Option.Rel SameRecord (s.heightToChangeRecord.get? height)
    (t.heightToChangeRecord.get? height)

namespace SameLedger

variable {height : Nat} {s s' : Store}

/-- The last rows hold the counters. -/
theorem runesRow (h : SameLedger height s s') :
    s.heightToStatisticRunes.get? height = s'.heightToStatisticRunes.get? height := by
  rw [h.rows.runesRow_eq, h.rows'.runesRow_eq,
    show s.memStatisticRunes = s'.memStatisticRunes from congrArg Ledger.runes h.ledger]

theorem reservedRow (h : SameLedger height s s') :
    s.heightToStatisticReservedRunes.get? height =
      s'.heightToStatisticReservedRunes.get? height := by
  rw [h.rows.reservedRow_eq, h.rows'.reservedRow_eq, h.reservedRunes]

end SameLedger

namespace SameStore

variable {s t s' t' : Store}

theorem refl (s : Store) : SameStore s s where
  config := rfl
  shuttingDown := rfl
  headers := rfl
  reservedRows := rfl
  runeRows := rfl
  balances := rfl
  entries := rfl
  names := rfl
  etchings := rfl
  outpointHeights := rfl
  records height := by
    cases s.heightToChangeRecord.get? height with
    | none => exact .none
    | some r => exact .some (.refl r)

/-- They hold one ledger. -/
theorem ledger (h : SameStore s t) : s.ledger = t.ledger := by
  ext : 1
  · exact h.balances
  · exact h.outpointHeights
  · exact h.entries
  · exact h.names
  · exact h.etchings
  · show s.memStatisticRunes = t.memStatisticRunes
    unfold Store.memStatisticRunes
    rw [h.runeRows]
  · show s.memStatisticReservedRunes = t.memStatisticReservedRunes
    unfold Store.memStatisticReservedRunes
    rw [h.reservedRows]

theorem nextBlock (h : SameStore s t) (lib : Crates) (network : BitcoinNetwork) :
    s.nextBlock lib network = t.nextBlock lib network := by
  unfold Store.nextBlock Store.memLatestBlock
  rw [h.headers]

theorem rowsUpTo (h : SameStore s t) {height : Nat} (hrows : s.RowsUpTo height) :
    t.RowsUpTo height :=
  ⟨h.runeRows ▸ hrows.runes, h.reservedRows ▸ hrows.reserved⟩

/-- The counters are copied alike. -/
theorem startBlock (h : SameStore s t) (height : Nat) :
    SameStore (startBlock height s) (startBlock height t) := by
  have hruns : s.memStatisticRunes = t.memStatisticRunes := congrArg Ledger.runes h.ledger
  have hreserved : s.memStatisticReservedRunes = t.memStatisticReservedRunes :=
    congrArg Ledger.reservedRunes h.ledger
  unfold RunesIndexer.startBlock Store.memInsertStatisticRunes Store.memInsertStatisticReservedRunes
  exact { h with
    reservedRows := by rw [hreserved, h.reservedRows]
    runeRows := by rw [hruns, h.runeRows] }

/-- One ledger with its last rows, and the same in the rest. -/
theorem of_ledger {height : Nat} (hledger : SameLedger height s t) (hconfig : s.config = t.config)
    (hflag : s.shuttingDown = t.shuttingDown)
    (hheaders : s.heightToBlockHeader = t.heightToBlockHeader)
    (hruns : ∀ k, k ≠ height →
      s.heightToStatisticRunes.get? k = t.heightToStatisticRunes.get? k)
    (hreserved : ∀ k, k ≠ height →
      s.heightToStatisticReservedRunes.get? k = t.heightToStatisticReservedRunes.get? k)
    (hrecords : ∀ k, Option.Rel SameRecord (s.heightToChangeRecord.get? k)
      (t.heightToChangeRecord.get? k)) : SameStore s t where
  config := hconfig
  shuttingDown := hflag
  headers := hheaders
  reservedRows := FinMap.ext_except height hledger.reservedRow hreserved
  runeRows := FinMap.ext_except height hledger.runesRow hruns
  balances := congrArg Ledger.balances hledger.ledger
  entries := congrArg Ledger.entries hledger.ledger
  names := congrArg Ledger.names hledger.ledger
  etchings := congrArg Ledger.etchings hledger.ledger
  outpointHeights := congrArg Ledger.heights hledger.ledger
  records := hrecords

/-- Inside a block only the ledger moves, and the last rows with it. -/
theorem within (h : SameStore s t) {height : Nat} (hledger : SameLedger height s' t')
    (hw : WithinBlock height s s') (hw' : WithinBlock height t t') : SameStore s' t' := by
  refine .of_ledger hledger ?_ ?_ ?_ (fun k hk => ?_) (fun k hk => ?_) fun k => ?_
  · rw [hw.config, hw'.config, h.config]
  · rw [hw.shuttingDown, hw'.shuttingDown, h.shuttingDown]
  · rw [hw.headers, hw'.headers, h.headers]
  · rw [hw.runeRows k hk, hw'.runeRows k hk, h.runeRows]
  · rw [hw.reservedRows k hk, hw'.reservedRows k hk, h.reservedRows]
  · rw [hw.records, hw'.records]
    exact h.records k

/-- A completed block adds its header and its record. -/
theorem written (h : SameStore s t) {height : Nat} {header : Header}
    (hledger : SameLedger height s' t') (hrecord : SameRecordAt height s' t')
    (hw : BlockWrites height header s s') (hw' : BlockWrites height header t t') :
    SameStore s' t' := by
  refine .of_ledger hledger ?_ ?_ ?_ (fun k hk => ?_) (fun k hk => ?_) fun k => ?_
  · rw [hw.config, hw'.config, h.config]
  · rw [hw.shuttingDown, hw'.shuttingDown, h.shuttingDown]
  · rw [hw.headers, hw'.headers, h.headers]
  · rw [hw.runeRows k hk, hw'.runeRows k hk, h.runeRows]
  · rw [hw.reservedRows k hk, hw'.reservedRows k hk, h.reservedRows]
  · obtain ⟨r, r', hr, hr', hsame⟩ := hrecord
    obtain ⟨r₁, hs⟩ := hw.records
    obtain ⟨r₂, ht⟩ := hw'.records
    by_cases hk : k = height
    · rw [hk, hr, hr']
      exact .some hsame
    · rw [hs, ht, FinMap.get?_insert_ne _ _ hk, FinMap.get?_insert_ne _ _ hk]
      exact h.records k

/-! ### Writes -/

theorem insertBalances (h : SameStore s t) (o : OutPoint) {l l' : RuneBalances}
    (hl : Multiset.ofList l = Multiset.ofList l') :
    SameStore (s.memInsertOutpointToRuneBalances o l)
      (t.memInsertOutpointToRuneBalances o l') := by
  have hmap : (s.outpointToRuneBalances.insert o l).mapVal Multiset.ofList =
      (t.outpointToRuneBalances.insert o l').mapVal Multiset.ofList := by
    rw [FinMap.mapVal_insert, FinMap.mapVal_insert, h.balances, hl]
  exact { h with balances := hmap }

theorem removeBalances (h : SameStore s t) (o : OutPoint) :
    SameStore (s.memRemoveOutpointToRuneBalances o) (t.memRemoveOutpointToRuneBalances o) := by
  have hmap : (s.outpointToRuneBalances.erase o).mapVal Multiset.ofList =
      (t.outpointToRuneBalances.erase o).mapVal Multiset.ofList := by
    rw [FinMap.mapVal_erase, FinMap.mapVal_erase, h.balances]
  exact { h with balances := hmap }

theorem insertHeight (h : SameStore s t) (o : OutPoint) (n : Nat) :
    SameStore (s.memInsertOutpointToHeight o n) (t.memInsertOutpointToHeight o n) :=
  { h with outpointHeights := congrArg (·.insert o n) h.outpointHeights }

theorem removeHeight (h : SameStore s t) (o : OutPoint) :
    SameStore (s.memRemoveOutpointToHeight o) (t.memRemoveOutpointToHeight o) :=
  { h with outpointHeights := congrArg (·.erase o) h.outpointHeights }

theorem insertEntry (h : SameStore s t) (id : RuneId) (e : RuneEntry) :
    SameStore (s.memInsertRuneIdToRuneEntry id e) (t.memInsertRuneIdToRuneEntry id e) :=
  { h with entries := congrArg (·.insert id e.reload) h.entries }

theorem removeRune (h : SameStore s t) (e : Rune × RuneId × Txid) :
    SameStore (Reorg.removeRune s e) (Reorg.removeRune t e) :=
  { h with
    names := congrArg (·.erase e.1) h.names
    entries := congrArg (·.erase e.2.1) h.entries
    etchings := congrArg (·.erase e.2.2) h.etchings }

theorem dropHeight (h : SameStore s t) (height : Nat) :
    SameStore (Reorg.dropHeight height s) (Reorg.dropHeight height t) := by
  have hrecords : ∀ k, Option.Rel SameRecord ((s.heightToChangeRecord.erase height).get? k)
      ((t.heightToChangeRecord.erase height).get? k) := by
    intro k
    rw [FinMap.get?_erase, FinMap.get?_erase]
    by_cases hk : k = height
    · rw [if_pos hk, if_pos hk]
      exact .none
    · rw [if_neg hk, if_neg hk]
      exact h.records k
  exact { h with
    headers := congrArg (·.erase height) h.headers
    reservedRows := congrArg (·.erase height) h.reservedRows
    runeRows := congrArg (·.erase height) h.runeRows
    records := hrecords }

/-- Pruning forgets the same heights on both sides. -/
theorem prune (h : SameStore s t) (network : BitcoinNetwork) (height : Nat) :
    SameStore (Reorg.pruneChangeRecord network height s)
      (Reorg.pruneChangeRecord network height t) := by
  have hrecords : ∀ n k, Option.Rel SameRecord ((Store.above n s.heightToChangeRecord).get? k)
      ((Store.above n t.heightToChangeRecord).get? k) := by
    intro n k
    unfold Store.above
    rw [FinMap.get?_filterKeys, FinMap.get?_filterKeys]
    split
    · exact h.records k
    · exact .none
  unfold Reorg.pruneChangeRecord
  split
  · exact { h with
      headers := congrArg (Store.above _) h.headers
      reservedRows := congrArg (Store.above _) h.reservedRows
      runeRows := congrArg (fun m => (Store.above _ m).erase _) h.runeRows
      records := hrecords _ }
  · exact h

end SameStore

/-! ### Blocks -/

/-- From stores that are the same, a block makes the same calls and leaves stores that are the
    same, wherever it stops. -/
theorem indexBlock_same (lib : Crates) (ord ord' : HashOrder) (network : BitcoinNetwork)
    {height : Nat} (b : BlockData) {s t : Store} (hrows : s.RowsUpTo height)
    (h : SameStore s t) :
    Proc.Sim SameStore (fun s' _ t' _ => SameStore s' t')
      ((indexBlock lib ord network height b).run s)
      ((indexBlock lib ord' network height b).run t) := by
  have hstop : ∀ ord (s : Store) x, Proc.Stops (fun _ _ => True)
      ((indexBlock lib ord network height b).run s) x →
      WithinBlock height (startBlock height s) x.state := by
    intro ord s x hx
    obtain ⟨k, hk⟩ := indexBlock_stops hx
    exact hk.within
  have hsim := indexBlock_sim lib ord ord' network height b hrows (h.rowsUpTo hrows) h.ledger
  refine (hsim.strengthen (hstop ord s) (fun s' _ hs' => indexBlock_writes hs') (hstop ord' t)
    (fun t' _ ht' => indexBlock_writes ht')).mono ?_ ?_
  · intro s' t' hx
    exact (h.startBlock height).within hx.1 hx.2.1 hx.2.2
  · intro s' _ t' _ hx
    exact h.written hx.1.1 hx.1.2 hx.2.1 hx.2.2

/-! ### Rollback -/

namespace Reorg

/-- A reset traps when the entry is missing, before or after another reset. -/
theorem resetEntry_missing {id id' : RuneId} (f f' : RuneEntry → RuneEntry) (hid : id ≠ id')
    {s : Store}
    (h : s.runeIdToRuneEntry.get? id = none ∨ s.runeIdToRuneEntry.get? id' = none) :
    (resetEntry id f >>= fun _ => resetEntry id' f').run s = .trap .unwrapFailed := by
  rw [Sync.run_bind, resetEntry_run]
  cases he : s.runeIdToRuneEntry.get? id with
  | none => rfl
  | some e =>
    have hmissing : s.runeIdToRuneEntry.get? id' = none := h.resolve_left (by simp [he])
    have hget : (s.memInsertRuneIdToRuneEntry id (f e)).runeIdToRuneEntry.get? id' = none :=
      (FinMap.get?_insert_ne _ _ (Ne.symm hid)).trans hmissing
    dsimp only
    rw [resetEntry_run, hget]

theorem resetEntry_both {id id' : RuneId} (f f' : RuneEntry → RuneEntry) (hid : id ≠ id')
    {s : Store} {e e' : RuneEntry} (he : s.runeIdToRuneEntry.get? id = some e)
    (he' : s.runeIdToRuneEntry.get? id' = some e') :
    (resetEntry id f >>= fun _ => resetEntry id' f').run s =
      .ok ((s.memInsertRuneIdToRuneEntry id (f e)).memInsertRuneIdToRuneEntry id' (f' e')) () := by
  rw [Sync.run_bind, resetEntry_run, he]
  have hget : (s.memInsertRuneIdToRuneEntry id (f e)).runeIdToRuneEntry.get? id' = some e' :=
    (FinMap.get?_insert_ne _ _ (Ne.symm hid)).trans he'
  dsimp only
  rw [resetEntry_run, hget]

/-- Resets of different entries commute. -/
theorem resetEntry_comm {id id' : RuneId} (f f' : RuneEntry → RuneEntry) (hid : id ≠ id') :
    (resetEntry id f >>= fun _ => resetEntry id' f') =
      (resetEntry id' f' >>= fun _ => resetEntry id f) := by
  refine Sync.ext fun s => ?_
  cases he : s.runeIdToRuneEntry.get? id with
  | none =>
    rw [resetEntry_missing f f' hid (.inl he), resetEntry_missing f' f (Ne.symm hid) (.inr he)]
  | some e =>
    cases he' : s.runeIdToRuneEntry.get? id' with
    | none =>
      rw [resetEntry_missing f f' hid (.inr he'),
        resetEntry_missing f' f (Ne.symm hid) (.inl he')]
    | some e' =>
      rw [resetEntry_both f f' hid he he', resetEntry_both f' f (Ne.symm hid) he' he]
      unfold Store.memInsertRuneIdToRuneEntry
      rw [FinMap.insert_comm _ _ _ hid]

/-- The order of the resets does not matter, as a map lists an entry once. -/
theorem resets_perm (g : RuneId × Nat → RuneEntry → RuneEntry) (ord ord' : HashOrder)
    (site : IterSite) (m : LotMap) :
    (ord.iter site m).forM (fun e => resetEntry e.1 (g e)) =
      (ord'.iter site m).forM (fun e => resetEntry e.1 (g e)) := by
  refine forM_perm (iter_perm_iter ord ord' site site m) ?_
  refine (List.pairwise_map.mp (iter_nodup ord site m)).imp ?_
  intro x y hxy
  exact resetEntry_comm (g x) (g y) hxy

variable {s t : Store}

theorem resets_same (l : List (RuneId × Nat)) (g : RuneId × Nat → RuneEntry → RuneEntry)
    (h : SameStore s t) :
    Result.Sim SameStore (fun s' _ t' _ => SameStore s' t')
      ((l.forM fun e => resetEntry e.1 (g e)).run s)
      ((l.forM fun e => resetEntry e.1 (g e)).run t) := by
  refine Sync.sim_forM (R := fun s' _ t' _ => SameStore s' t') ?_ h
  intro e _ s t h
  rw [resetEntry_run, resetEntry_run, h.entries]
  cases t.runeIdToRuneEntry.get? e.1 with
  | none => exact .trap _
  | some entry => exact .ok (h.insertEntry e.1 (g e entry))

/-- The outpoints come back with their balances in the order of either record. -/
theorem restoreOutpoints_same {l l' : List (OutPoint × RuneBalances × Nat)}
    (hl : l.map unordered = l'.map unordered) (h : SameStore s t) :
    SameStore (l.foldl restoreOutpoint s) (l'.foldl restoreOutpoint t) := by
  induction l generalizing l' s t with
  | nil =>
    cases l' with
    | nil => exact h
    | cons e' l' => simp at hl
  | cons e l ih =>
    cases l' with
    | nil => simp at hl
    | cons e' l' =>
      obtain ⟨o, balances, height⟩ := e
      obtain ⟨o', balances', height'⟩ := e'
      rw [List.map_cons, List.map_cons, List.cons.injEq] at hl
      obtain ⟨hhead, htail⟩ := hl
      unfold unordered at hhead
      simp only [Prod.mk.injEq] at hhead
      obtain ⟨rfl, hbalances, rfl⟩ := hhead
      rw [List.foldl_cons, List.foldl_cons]
      exact ih htail ((h.insertBalances o hbalances).insertHeight o height)

theorem foldl_same {α : Type} {f : Store → α → Store}
    (hf : ∀ s t a, SameStore s t → SameStore (f s a) (f t a)) (l : List α) (h : SameStore s t) :
    SameStore (l.foldl f s) (l.foldl f t) := by
  induction l generalizing s t with
  | nil => exact h
  | cons a l ih => exact ih (hf s t a h)

/-- Undoing two records that are the same but for orders. -/
theorem undoRecord_same (ord ord' : HashOrder) (height : Nat) {r r' : ChangeRecord}
    (hr : SameRecord r r') (h : SameStore s t) :
    Result.Sim SameStore (fun s' _ t' _ => SameStore s' t') ((undoRecord ord height r).run s)
      ((undoRecord ord' height r').run t) := by
  unfold undoRecord modify
  rw [Sync.run_modify_bind, Sync.run_modify_bind, Sync.run_modify_bind, Sync.run_modify_bind,
    hr.addedOutpoints, hr.burned, hr.mints, hr.addedRunes, resetBurned_eq, resetMints_eq]
  have hremoved := foldl_same (f := removeOutpoint)
    (fun s t o hst => (hst.removeBalances o).removeHeight o) r'.addedOutpoints
    (restoreOutpoints_same hr.removedOutpoints h)
  rw [resets_perm (fun e entry => { entry with burned := e.2 }) ord ord',
    resets_perm (fun e entry => { entry with mints := e.2 }) ord ord']
  refine Sync.sim_bind (resets_same _ _ hremoved) ?_
  intro s _ t _ h
  refine Sync.sim_bind (resets_same _ _ h) ?_
  intro s _ t _ h
  exact .ok (foldl_same (fun s t e hst => hst.removeRune e) r'.addedRunes h)

theorem rollbackHeight_same (ord ord' : HashOrder) (height : Nat) (h : SameStore s t) :
    Result.Sim SameStore (fun s' _ t' _ => SameStore s' t') ((rollbackHeight ord height).run s)
      ((rollbackHeight ord' height).run t) := by
  rw [rollbackHeight_eq, rollbackHeight_eq]
  unfold gets
  rw [Sync.run_gets_bind, Sync.run_gets_bind]
  unfold Store.memGetChangeRecord
  have hrecord := h.records height
  revert hrecord
  generalize s.heightToChangeRecord.get? height = x
  generalize t.heightToChangeRecord.get? height = y
  intro hrecord
  cases hrecord with
  | none => exact .ok (h.dropHeight height)
  | some hr =>
    refine Sync.sim_bind (undoRecord_same ord ord' height hr h) ?_
    intro s _ t _ h
    exact .ok (h.dropHeight height)

/-- From stores that are the same, a rollback leaves stores that are the same. -/
theorem handleReorg_same (ord ord' : HashOrder) (height depth : Nat) (h : SameStore s t) :
    Result.Sim SameStore (fun s' _ t' _ => SameStore s' t')
      ((handleReorg ord height depth).run s) ((handleReorg ord' height depth).run t) :=
  Sync.sim_forM (fun k _ _ _ h => rollbackHeight_same ord ord' k h) h

end Reorg

/-! ### Runs -/

/-- The order in which hash maps are walked through is irrelevant. From a state of a run and a
    store that is the same but for the order of balance lists, the next block and any rollback
    do the same whatever the two orders are: they make the same calls, trap alike, fail alike,
    and leave stores that are again the same. -/
theorem Run.order_irrelevant {lib : Crates} {network : BitcoinNetwork} {node : Node}
    {admits : List BlockData → Prop} {chain : List BlockData} {s t : Store}
    (h : Run lib network node admits chain s) (ht : SameStore s t) (ord ord' : HashOrder) :
    s.nextBlock lib network = t.nextBlock lib network ∧
    (∀ b, Proc.Sim SameStore
      (fun s' _ t' _ => SameStore s' t' ∧
        SameStore (Reorg.pruneChangeRecord network (s.nextBlock lib network).1 s')
          (Reorg.pruneChangeRecord network (t.nextBlock lib network).1 t'))
      ((indexBlock lib ord network (s.nextBlock lib network).1 b).run s)
      ((indexBlock lib ord' network (t.nextBlock lib network).1 b).run t)) ∧
    ∀ height depth, Result.Sim SameStore (fun s' _ t' _ => SameStore s' t')
      ((Reorg.handleReorg ord height depth).run s)
      ((Reorg.handleReorg ord' height depth).run t) := by
  have hnext := ht.nextBlock lib network
  obtain ⟨lo, hwin⟩ := h.window
  refine ⟨hnext, fun b => ?_, fun height depth => ?_⟩
  · rw [← hnext]
    have hrows : s.RowsUpTo (s.nextBlock lib network).1 := by
      rw [hwin.nextBlock]
      exact hwin.rowsBelow.upTo
    refine (indexBlock_same lib ord ord' network b hrows ht).mono (fun _ _ hst => hst) ?_
    intro s' _ t' _ hst
    exact ⟨hst, hst.prune network _⟩
  · exact Reorg.handleReorg_same ord ord' height depth ht

namespace Sample

/-- Every hash map is walked through by decreasing rune id. -/
def reversed : HashOrder where
  iter _ m := (sortPairs m.toMultiset).reverse
  iter_perm _ m := by rw [Multiset.coe_reverse, coe_sortPairs]

/-- Two runes meet in one output, and both are minted. -/
def bothBlock : BlockData :=
  block 9 10 [(tx [spend 2 1 [], spend 3 1 []] [2, 1, 1], 4), (tx [] [2, 0, 0], 5)] (by decide)

/-- What `index_block` leaves of this block. -/
def bothIndexed (ord : HashOrder) (s : Store) : Result Error Panic Store Unit :=
  ((indexBlock crates ord .regtest 2 bothBlock).run s).resultWith reply

/-- The list of the output with both runes. -/
def bothList (s : Store) : Option RuneBalances := s.outpointToRuneBalances.get? ⟨4, 1⟩

/-- How often the two were minted. -/
def bothMints (s : Store) : Option Nat × Option Nat :=
  ((s.runeIdToRuneEntry.get? ⟨0, 0⟩).map RuneEntry.mints,
    (s.runeIdToRuneEntry.get? ⟨1, 1⟩).map RuneEntry.mints)

end Sample

/-- In one order and in the reverse one the lists differ, and the rollback of the block undoes
    both mints. -/
theorem Run.order_irrelevant_sample :
    ∃ s s' t' s₀, Run Sample.crates .regtest (fun _ => Answers.any) DistinctTxids
        Sample.reorgedChain s ∧
      Sample.bothIndexed Sample.order s = .ok s' () ∧
      Sample.bothIndexed Sample.reversed s = .ok t' () ∧
      Sample.bothList s' = some [⟨⟨0, 0⟩, 105⟩, ⟨⟨1, 1⟩, 105⟩] ∧
      Sample.bothList t' = some [⟨⟨1, 1⟩, 105⟩, ⟨⟨0, 0⟩, 105⟩] ∧
      SameStore s' t' ∧ Sample.bothMints s' = (some 2, some 1) ∧
      (Reorg.handleReorg Sample.order 3 2).run (Reorg.pruneChangeRecord .regtest 2 s') =
        .ok s₀ () ∧ Sample.bothMints s₀ = (some 1, some 0) ∧
      ∃ t₀, (Reorg.handleReorg Sample.reversed 3 2).run (Reorg.pruneChangeRecord .regtest 2 t') =
        .ok t₀ () ∧ SameStore s₀ t₀ := by
  obtain ⟨s, -, hs, hnode⟩ := moved_exec (P := fun s =>
    decide ((s.nextBlock Sample.crates .regtest).1 = 2) &&
    (Sample.bothIndexed Sample.order s).returns (fun s' _ =>
      decide (Sample.bothList s' = some [⟨⟨0, 0⟩, 105⟩, ⟨⟨1, 1⟩, 105⟩] ∧
        Sample.bothMints s' = (some 2, some 1)) &&
      Result.returns (fun s₀ _ => decide (Sample.bothMints s₀ = (some 1, some 0)))
        ((Reorg.handleReorg Sample.order 3 2).run (Reorg.pruneChangeRecord .regtest 2 s'))) &&
    (Sample.bothIndexed Sample.reversed s).returns (fun t' _ =>
      decide (Sample.bothList t' = some [⟨⟨1, 1⟩, 105⟩, ⟨⟨0, 0⟩, 105⟩]))) (by decide +kernel)
  rw [Bool.and_eq_true, Bool.and_eq_true] at hs
  obtain ⟨⟨hheight, hs'⟩, ht'⟩ := hs
  obtain ⟨s', _, hindexed, hs'⟩ := Result.returns_iff.mp hs'
  obtain ⟨t', _, hreversed, ht'⟩ := Result.returns_iff.mp ht'
  obtain ⟨hlist, hs'⟩ := Bool.and_eq_true_iff.mp hs'
  obtain ⟨s₀, _, hundone, hmints₀⟩ := Result.returns_iff.mp hs'
  obtain ⟨hlist, hmints⟩ := of_decide_eq_true hlist
  have hrun := hnode (fun _ => Answers.any) fun _ _ => trivial
  -- the block, in both orders
  obtain ⟨-, hblock, -⟩ := Run.order_irrelevant hrun (.refl s) Sample.order Sample.reversed
  have hblock := hblock Sample.bothBlock
  have hstep : Proc.Runs _ _ (Sample.bothIndexed Sample.order s) := runs_only Sample.reply _
  rw [hindexed] at hstep
  rw [of_decide_eq_true hheight] at hblock
  obtain ⟨t, _, hstep', hsame, hpruned⟩ := hblock.runs_ok hstep
  have hstep'' : Proc.Runs _ _ (Sample.bothIndexed Sample.reversed s) := runs_only Sample.reply _
  rw [hreversed] at hstep''
  cases hstep'.unique (Answers.only_functional Sample.reply) hstep''
  -- its rollback, in both orders
  have hrun' := Run.index (b := Sample.bothBlock) hrun (by decide)
    (by rw [of_decide_eq_true hheight]; exact hstep.mono fun _ _ _ => trivial)
  rw [of_decide_eq_true hheight] at hrun'
  obtain ⟨-, -, hundo⟩ := Run.order_irrelevant hrun' hpruned Sample.order Sample.reversed
  have hundo := hundo 3 2
  rw [hundone] at hundo
  generalize hr : (Reorg.handleReorg Sample.reversed 3 2).run
    (Reorg.pruneChangeRecord .regtest 2 t') = r at hundo
  cases hundo with
  | ok hsame₀ =>
    exact ⟨s, s', t', s₀, hrun, hindexed, hreversed, hlist, of_decide_eq_true ht', hsame, hmints,
      hundone, of_decide_eq_true hmints₀, _, hr, hsame₀⟩

end RunesIndexer
