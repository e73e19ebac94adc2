import RunesIndexer.Spec.Order
import RunesIndexer.Spec.Phases

/-! # Equal ledgers stay equal

    What `index_block` does depends on the ledger, not on how the ledger came
    about: from two states with the same ledger, whatever the iteration orders,
    it makes the same calls and ends the same way, with the same ledger and with
    records that differ in the order of balance lists only.
-/

namespace RunesIndexer

open Resumption MonadicFold RuneUpdater

/-! ### Records and updaters that agree -/

/-- A removed outpoint without the order of its balances. -/
def unordered (e : OutPoint × RuneBalances × Nat) : OutPoint × Multiset RuneBalance × Nat :=
  (e.1, Multiset.ofList e.2.1, e.2.2)

/-- The records are the same but for the order of balance lists. -/
structure SameRecord (r r' : ChangeRecord) : Prop where
  removedOutpoints : r.removedOutpoints.map unordered = r'.removedOutpoints.map unordered
  addedOutpoints : r.addedOutpoints = r'.addedOutpoints
  burned : r.burned = r'.burned
  mints : r.mints = r'.mints
  addedRunes : r.addedRunes = r'.addedRunes

theorem SameRecord.refl (r : ChangeRecord) : SameRecord r r := ⟨rfl, rfl, rfl, rfl, rfl⟩

theorem SameRecord.symm {r r' : ChangeRecord} (h : SameRecord r r') : SameRecord r' r :=
  ⟨h.removedOutpoints.symm, h.addedOutpoints.symm, h.burned.symm, h.mints.symm,
    h.addedRunes.symm⟩

/-- Two states inside the block at `height` with one ledger. -/
structure SameLedger (height : Nat) (s s' : Store) : Prop where
  ledger : s.ledger = s'.ledger
  rows : s.RowsEndAt height
  rows' : s'.RowsEndAt height

/-- Two updaters of the block at height `n`. -/
structure SameUpdater (n : Nat) (u u' : RuneUpdater) : Prop where
  height : u.height = n
  height' : u'.height = n
  minimum : u.minimum = u'.minimum
  blockTime : u.blockTime = u'.blockTime
  burned : u.burned = u'.burned
  runes : u.runes = u'.runes
  record : SameRecord u.changeRecord u'.changeRecord

/-- The states, one value of each side and the updaters agree. -/
def Alike {α : Type} (height : Nat) (s : Store) (x : α × RuneUpdater) (s' : Store)
    (x' : α × RuneUpdater) : Prop :=
  SameLedger height s s' ∧ x.1 = x'.1 ∧ SameUpdater height x.2 x'.2

namespace SameLedger

variable {height : Nat} {s s' : Store}

theorem entry (h : SameLedger height s s') (id : RuneId) :
    s.runeIdToRuneEntry.get? id = s'.runeIdToRuneEntry.get? id :=
  congrArg (fun L : Ledger => L.entries.get? id) h.ledger

theorem name (h : SameLedger height s s') (rune : Rune) :
    s.runeToRuneId.get? rune = s'.runeToRuneId.get? rune :=
  congrArg (fun L : Ledger => L.names.get? rune) h.ledger

theorem outpointHeight (h : SameLedger height s s') (o : OutPoint) :
    s.outpointToHeight.get? o = s'.outpointToHeight.get? o :=
  congrArg (fun L : Ledger => L.heights.get? o) h.ledger

theorem reservedRunes (h : SameLedger height s s') :
    s.memStatisticReservedRunes = s'.memStatisticReservedRunes :=
  congrArg Ledger.reservedRunes h.ledger

/-- The balances of an outpoint are stored on both sides, in some order, or on none. -/
theorem balances (h : SameLedger height s s') (o : OutPoint) :
    s.outpointToRuneBalances.get? o = none ∧ s'.outpointToRuneBalances.get? o = none ∨
    ∃ l l', s.outpointToRuneBalances.get? o = some l ∧
      s'.outpointToRuneBalances.get? o = some l' ∧ l.Perm l' := by
  have hget := congrArg (fun L : Ledger => L.balances.get? o) h.ledger
  simp only [Store.ledger_balances_get?] at hget
  cases hs : s.outpointToRuneBalances.get? o with
  | none =>
    rw [hs] at hget
    exact .inl ⟨rfl, Option.map_eq_none_iff.mp hget.symm⟩
  | some l =>
    rw [hs] at hget
    obtain ⟨l', hl', hperm⟩ := Option.map_eq_some_iff.mp hget.symm
    exact .inr ⟨l, l', rfl, hl', (Multiset.coe_eq_coe.mp hperm).symm⟩

/-- A change of the ledger that leaves the statistic rows alone. -/
theorem change (h : SameLedger height s s') {t t' : Store} (hledger : t.ledger = t'.ledger)
    (hw : WithinBlock height s t) (hw' : WithinBlock height s' t') : SameLedger height t t' :=
  ⟨hledger, hw.rowsEnd h.rows, hw'.rowsEnd h.rows'⟩

end SameLedger

namespace RuneUpdater

/-! ### Inputs -/

/-- The loop body of `unallocated` in full. -/
theorem unallocatedInput_run (t : LotMap) (u : RuneUpdater) (input : TxIn) (s : Store) :
    (unallocatedInput (t, u) input).run s =
      match s.outpointToRuneBalances.get? input.previousOutput with
      | none => .ok s (t, u)
      | some l =>
        match l.foldlM (fun m b => LotMap.addTo m b.runeId b.balance) t with
        | .error p => .trap p
        | .ok t' =>
          match s.outpointToHeight.get? input.previousOutput with
          | none => .err (s.memRemoveOutpointToRuneBalances input.previousOutput)
              (.outpointHeightNotFound input.previousOutput)
          | some height =>
            .ok ((s.memRemoveOutpointToRuneBalances
              input.previousOutput).memRemoveOutpointToHeight input.previousOutput)
              (t', { u with changeRecord := { u.changeRecord with
                removedOutpoints := u.changeRecord.removedOutpoints ++
                  [(input.previousOutput, l, height)] } }) := by
  unfold unallocatedInput gets modify
  rw [Sync.run_gets_bind]
  unfold Store.memGetOutpointToRuneBalances
  cases s.outpointToRuneBalances.get? input.previousOutput with
  | none => rfl
  | some l =>
    dsimp only
    rw [Sync.run_modify_bind]
    cases l.foldlM (fun m b => LotMap.addTo m b.runeId b.balance) t with
    | error p => rfl
    | ok t' =>
      dsimp only
      -- the removal of the balances does not touch the height
      have hheight : (s.memRemoveOutpointToRuneBalances
          input.previousOutput).memGetOutpointToHeight input.previousOutput =
          s.outpointToHeight.get? input.previousOutput := rfl
      rw [Sync.run_bind]
      simp only [Sync.run_liftM, Sync.run_ofExcept_ok, Sync.run_gets_bind, hheight]
      cases s.outpointToHeight.get? input.previousOutput with
      | none => rfl
      | some height => rfl

variable {height : Nat}

theorem unallocatedInput_sim (input : TxIn) {s s' : Store} {x x' : LotMap × RuneUpdater}
    (h : Alike height s x s' x') :
    Result.Sim (SameLedger height) (Alike height) ((unallocatedInput x input).run s)
      ((unallocatedInput x' input).run s') := by
  obtain ⟨t, u⟩ := x
  obtain ⟨t', u'⟩ := x'
  obtain ⟨hs, rfl, hu⟩ := h
  rw [unallocatedInput_run, unallocatedInput_run]
  rcases hs.balances input.previousOutput with ⟨hnone, hnone'⟩ | ⟨l, l', hl, hl', hperm⟩
  · rw [hnone, hnone']
    exact .ok ⟨hs, rfl, hu⟩
  · -- the lists are taken in different orders, with one sum
    rw [hl, hl']
    dsimp only
    -- one sum, and one height for the outpoint
    rw [takeBalances_perm hperm, ← hs.outpointHeight]
    cases l'.foldlM (fun m b => LotMap.addTo m b.runeId b.balance) t with
    | error p => exact .trap p
    | ok t₁ =>
      dsimp only
      cases s.outpointToHeight.get? input.previousOutput with
      | none =>
        refine .err (hs.change ?_ (.of_eq rfl rfl rfl rfl rfl rfl) (.of_eq rfl rfl rfl rfl rfl rfl))
        rw [Store.ledger_memRemoveOutpointToRuneBalances,
          Store.ledger_memRemoveOutpointToRuneBalances, hs.ledger]
      | some n =>
        refine .ok ⟨hs.change ?_ (.of_eq rfl rfl rfl rfl rfl rfl) (.of_eq rfl rfl rfl rfl rfl rfl),
          rfl, { hu with record := { hu.record with removedOutpoints := ?_ } }⟩
        · simp only [Store.ledger_memRemoveOutpointToHeight,
            Store.ledger_memRemoveOutpointToRuneBalances, hs.ledger]
        · have hlast : unordered (input.previousOutput, l, n) =
              unordered (input.previousOutput, l', n) := by
            unfold unordered
            rw [Multiset.coe_eq_coe.mpr hperm]
          rw [List.map_append, List.map_append, hu.record.removedOutpoints, List.map_singleton,
            List.map_singleton, hlast]

theorem unallocated_sim (tx : Transaction) {s s' : Store} {u u' : RuneUpdater}
    (hs : SameLedger height s s') (hu : SameUpdater height u u') :
    Result.Sim (SameLedger height) (Alike height) ((u.unallocated tx).run s)
      ((u'.unallocated tx).run s') :=
  Sync.sim_foldlM (fun input _ _ _ _ _ h => unallocatedInput_sim input h) ⟨hs, rfl, hu⟩

/-! ### Mints -/

theorem mint_sim (id : RuneId) {s s' : Store} {u u' : RuneUpdater} (hs : SameLedger height s s')
    (hu : SameUpdater height u u') :
    Result.Sim (SameLedger height) (Alike height) ((u.mint id).run s) ((u'.mint id).run s') := by
  obtain ⟨s₁, amount, u₁, hrun, hm⟩ := mint_run u id s
  obtain ⟨s₁', amount', u₁', hrun', hm'⟩ := mint_run u' id s'
  rw [hrun, hrun']
  -- equal entries and heights, so both refuse or both mint
  cases hm with
  | refused h =>
    cases hm' with
    | refused _ => exact .ok ⟨hs, rfl, hu⟩
    | minted he' hm' =>
      rw [hu.height'] at hm'
      exact absurd (hu.height ▸ hm') (h _ ((hs.entry id).trans he') _)
  | minted he hm =>
    cases hm' with
    | refused h' =>
      rw [hu.height] at hm
      exact absurd (hu.height' ▸ hm) (h' _ ((hs.entry id).symm.trans he) _)
    | minted he' hm' =>
      rw [hs.entry id, he'] at he
      cases he
      rw [hu.height] at hm
      rw [hu.height', hm] at hm'
      cases hm'
      refine .ok ⟨hs.change ?_ (.of_eq rfl rfl rfl rfl rfl rfl) (.of_eq rfl rfl rfl rfl rfl rfl),
        rfl, { hu with record := { hu.record with mints := ?_ } }⟩
      · rw [Store.ledger_memInsertRuneIdToRuneEntry, Store.ledger_memInsertRuneIdToRuneEntry,
          hs.ledger]
      · rw [hu.record.mints]

theorem indexMint_sim (artifact : Artifact) (t : LotMap) {s s' : Store} {u u' : RuneUpdater}
    (hs : SameLedger height s s') (hu : SameUpdater height u u') :
    Result.Sim (SameLedger height) (Alike height) ((u.indexMint artifact t).run s)
      ((u'.indexMint artifact t).run s') := by
  unfold indexMint
  split
  · exact .ok ⟨hs, rfl, hu⟩
  · refine Sync.sim_bind (mint_sim _ hs hu) ?_
    rintro s ⟨amount, u⟩ s' ⟨amount', u'⟩ ⟨hs, hamount, hu⟩
    obtain rfl : amount = amount' := hamount
    cases amount with
    | none => exact .ok ⟨hs, rfl, hu⟩
    | some n => exact Sync.sim_liftM_bind fun t' _ => .ok ⟨hs, rfl, hu⟩

/-! ### Etchings -/

theorem etched_sim (lib : Crates) (txIndex : Nat) (tx : Transaction) (artifact : Artifact)
    {s s' : Store} {u u' : RuneUpdater} (hs : SameLedger height s s')
    (hu : SameUpdater height u u') :
    Proc.Sim (SameLedger height) (fun t out t' out' => SameLedger height t t' ∧ out = out')
      ((etched lib u txIndex tx artifact).run s) ((etched lib u' txIndex tx artifact).run s') := by
  unfold etched
  split
  · exact .ok ⟨hs, rfl⟩
  · next rune _ =>
    -- the name is looked up, and the commitment is checked without touching the state
    simp only [gets, Async.run_bind, Async.run_liftM, Sync.run_gets, Result.toProc, Proc.bind,
      Store.memGetRuneToRuneId, hs.name rune, hu.minimum]
    split
    · exact .ok ⟨hs, rfl⟩
    · rw [Async.run_bind, Async.run_bind,
        txCommitsToRune_congr lib (hu.height.trans hu.height'.symm)]
      refine Proc.Sim.bind (R := fun t a t' b => SameLedger height t t' ∧ a = b) ?_ ?_
      · refine (txCommitsToRune_oblivious lib u' tx rune s s').mono ?_ ?_
        · rintro t t' ⟨rfl, rfl⟩
          exact hs
        · rintro t a t' b ⟨rfl, rfl, hab⟩
          exact ⟨hs, hab⟩
      · rintro t commits t' _ ⟨ht, rfl⟩
        split
        · rw [hu.height, hu.height']
          exact .ok ⟨ht, rfl⟩
        · exact .ok ⟨ht, rfl⟩
  · simp only [gets, modify, Async.run_bind, Async.run_liftM, Sync.run_gets, Sync.run_modify,
      Result.toProc, Proc.bind, Async.run_pure]
    rw [hs.reservedRunes, hu.height, hu.height']
    refine .ok ⟨hs.change ?_ (.insertStatisticReservedRunes _ _ _)
      (.insertStatisticReservedRunes _ _ _), rfl⟩
    rw [hs.rows.ledger_memInsertStatisticReservedRunes,
      hs.rows'.ledger_memInsertStatisticReservedRunes, hs.ledger]

theorem newRuneEntry_congr {u u' : RuneUpdater} (hruns : u.runes = u'.runes)
    (htime : u.blockTime = u'.blockTime) (txid : Txid) (artifact : Artifact) (id : RuneId)
    (rune : Rune) : newRuneEntry u txid artifact id rune = newRuneEntry u' txid artifact id rune := by
  unfold newRuneEntry
  rw [hruns, htime]

/-- `create_rune_entry` in full. -/
theorem createRuneEntry_run (u : RuneUpdater) (txid : Txid) (artifact : Artifact) (id : RuneId)
    (rune : Rune) (s : Store) :
    (u.createRuneEntry txid artifact id rune).run s =
      match newRuneEntry u txid artifact id rune with
      | .error p => .trap p
      | .ok entry => .ok (createdStore u txid id rune entry s) (created u txid id rune) := by
  unfold createRuneEntry modify
  simp only [Sync.run_bind, Sync.run_liftM]
  cases newRuneEntry u txid artifact id rune with
  | error p => rfl
  | ok entry => rfl

theorem createRuneEntry_sim (txid : Txid) (artifact : Artifact) (id : RuneId) (rune : Rune)
    {s s' : Store} {u u' : RuneUpdater} (hs : SameLedger height s s')
    (hu : SameUpdater height u u') :
    Result.Sim (SameLedger height)
      (fun t v t' v' => SameLedger height t t' ∧ SameUpdater height v v')
      ((u.createRuneEntry txid artifact id rune).run s)
      ((u'.createRuneEntry txid artifact id rune).run s') := by
  rw [createRuneEntry_run, createRuneEntry_run, newRuneEntry_congr hu.runes hu.blockTime]
  cases newRuneEntry u' txid artifact id rune with
  | error p => exact .trap p
  | ok entry =>
    have hw := createdStore_within u txid id rune entry s
    have hw' := createdStore_within u' txid id rune entry s'
    rw [hu.height] at hw
    rw [hu.height'] at hw'
    refine .ok ⟨hs.change ?_ hw hw', { hu with runes := ?_, record := { hu.record with
      addedRunes := ?_ } }⟩
    · rw [ledger_createdStore (hu.height ▸ hs.rows), ledger_createdStore (hu.height' ▸ hs.rows'),
        hs.ledger, hu.runes]
    · exact congrArg (· + 1) hu.runes
    · exact congrArg (· ++ [(rune, id, txid)]) hu.record.addedRunes

theorem indexArtifact_sim (lib : Crates) (txIndex : Nat) (tx : Transaction) (txid : Txid)
    (artifact : Artifact) (t : LotMap) {s s' : Store} {u u' : RuneUpdater}
    (hs : SameLedger height s s') (hu : SameUpdater height u u') :
    Proc.Sim (SameLedger height)
      (fun s x s' x' => SameLedger height s s' ∧ x.1 = x'.1 ∧ x.2.1 = x'.2.1 ∧
        SameUpdater height x.2.2 x'.2.2)
      ((indexArtifact lib u txIndex tx txid artifact t).run s)
      ((indexArtifact lib u' txIndex tx txid artifact t).run s') := by
  unfold indexArtifact
  refine Proc.Sim.bind (.of_result (indexMint_sim artifact t hs hu)) ?_
  rintro s ⟨t, u⟩ s' ⟨t', u'⟩ ⟨hs, ht, hu⟩
  obtain rfl : t = t' := ht
  refine Proc.Sim.bind (etched_sim lib txIndex tx artifact hs hu) ?_
  rintro s out s' _ ⟨hs, rfl⟩
  dsimp only
  rw [Async.run_bind, Async.run_bind]
  cases indexRunestone lib tx artifact out t with
  | error p => exact .trap p
  | ok x =>
    simp only [Async.run_liftM_except, Sync.run_ofExcept_ok, Result.toProc, Proc.bind]
    split
    · exact .ok ⟨hs, rfl, rfl, hu⟩
    · refine Proc.Sim.bind (.of_result (createRuneEntry_sim txid artifact _ _ hs hu)) ?_
      rintro s v s' v' ⟨hs, hv⟩
      exact .ok ⟨hs, rfl, rfl, hv⟩

/-! ### Outputs -/

/-- The loop body over the outputs in full. -/
theorem updateOutpoint_run (lib : Crates) (ord : HashOrder) (txIndex : Nat) (tx : Transaction)
    (txid : Txid) (b : LotMap) (u : RuneUpdater) (balances : LotMap) (vout : Nat) (s : Store) :
    (updateOutpoint lib ord txIndex tx txid (b, u) (balances, vout)).run s =
      if balances.size = 0 then .ok s (b, u)
      else match tx.output[vout]? with
        | none => .trap .outOfBounds
        | some txOut =>
          if lib.burns txOut then
            match addAll b (ord.iter (.allocated u.height txIndex vout) balances) with
            | .error p => .trap p
            | .ok b' => .ok s (b', u)
          else .ok ((s.memInsertOutpointToRuneBalances ⟨txid, vout⟩
              ((ord.iter (.allocated u.height txIndex vout) balances).map
                fun e => ⟨e.1, e.2⟩)).memInsertOutpointToHeight ⟨txid, vout⟩ u.height)
            (b, { u with changeRecord := { u.changeRecord with
              addedOutpoints := u.changeRecord.addedOutpoints ++ [⟨txid, vout⟩] } }) := by
  unfold updateOutpoint
  dsimp only
  split
  · rfl
  · unfold indexAt
    cases tx.output[vout]? with
    | none => rfl
    | some txOut =>
      rw [Sync.run_bind]
      simp only [Sync.run_liftM, Sync.run_ofExcept_ok]
      split
      -- an OP_RETURN output burns, any other is stored
      · cases addAll b (ord.iter (.allocated u.height txIndex vout) balances) with
        | error p => rfl
        | ok b' => rfl
      · rfl

theorem updateOutpoint_sim (lib : Crates) (ord ord' : HashOrder) (txIndex : Nat)
    (tx : Transaction) (txid : Txid) (output : LotMap × Nat) {s s' : Store}
    {x x' : LotMap × RuneUpdater} (h : Alike height s x s' x') :
    Result.Sim (SameLedger height) (Alike height)
      ((updateOutpoint lib ord txIndex tx txid x output).run s)
      ((updateOutpoint lib ord' txIndex tx txid x' output).run s') := by
  obtain ⟨b, u⟩ := x
  obtain ⟨b', u'⟩ := x'
  obtain ⟨balances, vout⟩ := output
  obtain ⟨hs, rfl, hu⟩ := h
  -- the two orders list the same lots
  have hperm := iter_perm_iter ord ord' (.allocated u.height txIndex vout)
    (.allocated u'.height txIndex vout) balances
  rw [updateOutpoint_run, updateOutpoint_run]
  dsimp only
  split
  · exact .ok ⟨hs, rfl, hu⟩
  · cases tx.output[vout]? with
    | none => exact .trap _
    | some txOut =>
      dsimp only
      split
      · rw [addAll_perm hperm]
        cases addAll b (ord'.iter (.allocated u'.height txIndex vout) balances) with
        | error p => exact .trap p
        | ok b₁ => exact .ok ⟨hs, rfl, hu⟩
      · refine .ok ⟨hs.change ?_ (.of_eq rfl rfl rfl rfl rfl rfl) (.of_eq rfl rfl rfl rfl rfl rfl),
          rfl, { hu with record := { hu.record with addedOutpoints := ?_ } }⟩
        · rw [Store.ledger_memInsertOutpointToHeight, Store.ledger_memInsertOutpointToHeight,
            Store.ledger_memInsertOutpointToRuneBalances,
            Store.ledger_memInsertOutpointToRuneBalances, hs.ledger, hu.height, hu.height',
            Multiset.coe_eq_coe.mpr ((hu.height ▸ hu.height' ▸ hperm).map _)]
        · exact congrArg (· ++ [(⟨txid, vout⟩ : OutPoint)]) hu.record.addedOutpoints

theorem finishTransaction_sim (lib : Crates) (ord ord' : HashOrder) (txIndex : Nat)
    (tx : Transaction) (txid : Txid) (artifact : Option Artifact) (t : LotMap) (a : List LotMap)
    {s s' : Store} {u u' : RuneUpdater} (hs : SameLedger height s s')
    (hu : SameUpdater height u u') :
    Result.Sim (SameLedger height)
      (fun t v t' v' => SameLedger height t t' ∧ SameUpdater height v v')
      ((finishTransaction lib ord u txIndex tx txid artifact t a).run s)
      ((finishTransaction lib ord' u' txIndex tx txid artifact t a).run s') := by
  unfold finishTransaction
  rw [assignUnallocated_perm lib tx artifact (iter_perm_iter ord ord'
    (.unallocated u.height txIndex) (.unallocated u'.height txIndex) t)]
  refine Sync.sim_liftM_bind fun x _ => ?_
  refine Sync.sim_bind (Sync.sim_foldlM (R := Alike height)
    (fun output _ _ _ _ _ h => updateOutpoint_sim lib ord ord' txIndex tx txid output h)
    ⟨hs, rfl, hu⟩) ?_
  rintro s ⟨b, u⟩ s' ⟨b', u'⟩ ⟨hs, hb, hu⟩
  obtain rfl : b = b' := hb
  dsimp only
  rw [hu.burned, addAll_perm (iter_perm_iter ord ord' (.txBurned u.height txIndex)
    (.txBurned u'.height txIndex) b)]
  exact Sync.sim_liftM_bind fun burned _ => .ok ⟨hs, { hu with burned := rfl }⟩

/-! ### Transactions and the flush -/

theorem indexRunes_sim (lib : Crates) (ord ord' : HashOrder) (txIndex : Nat) (tx : Transaction)
    (txid : Txid) {s s' : Store} {u u' : RuneUpdater} (hs : SameLedger height s s')
    (hu : SameUpdater height u u') :
    Proc.Sim (SameLedger height)
      (fun t v t' v' => SameLedger height t t' ∧ SameUpdater height v v')
      ((u.indexRunes lib ord txIndex tx txid).run s)
      ((u'.indexRunes lib ord' txIndex tx txid).run s') := by
  unfold indexRunes
  refine Proc.Sim.bind (.of_result (unallocated_sim tx hs hu)) ?_
  rintro s ⟨t, u⟩ s' ⟨t', u'⟩ ⟨hs, ht, hu⟩
  obtain rfl : t = t' := ht
  refine Proc.Sim.bind (R := fun s x s' x' => SameLedger height s s' ∧ x.1 = x'.1 ∧
    x.2.1 = x'.2.1 ∧ SameUpdater height x.2.2 x'.2.2) ?_ ?_
  · cases lib.decipher tx with
    | none => exact .ok ⟨hs, rfl, rfl, hu⟩
    | some artifact => exact indexArtifact_sim lib txIndex tx txid artifact t hs hu
  · rintro s ⟨t, a, u⟩ s' ⟨t', a', u'⟩ ⟨hs, ht, ha, hu⟩
    obtain rfl : t = t' := ht
    obtain rfl : a = a' := ha
    exact .of_result (finishTransaction_sim lib ord ord' txIndex tx txid _ t a hs hu)

end RuneUpdater

theorem indexTransactions_sim (lib : Crates) (ord ord' : HashOrder) {height : Nat}
    (l : List (Transaction × Txid)) (i : Nat) {s s' : Store} {u u' : RuneUpdater}
    (hs : SameLedger height s s') (hu : SameUpdater height u u') :
    Proc.Sim (SameLedger height)
      (fun t v t' v' => SameLedger height t t' ∧ SameUpdater height v v')
      ((indexTransactions lib ord u i l).run s) ((indexTransactions lib ord' u' i l).run s') := by
  induction l generalizing s s' u u' i with
  | nil => exact .ok ⟨hs, hu⟩
  | cons e rest ih =>
    refine Proc.Sim.bind (indexRunes_sim lib ord ord' i e.1 e.2 hs hu) ?_
    rintro s v s' v' ⟨hs, hv⟩
    exact ih (i + 1) hs hv

namespace RuneUpdater

theorem updateBurned_sim {height : Nat} (e : RuneId × Nat) {s s' : Store} {r r' : ChangeRecord}
    (hs : SameLedger height s s') (hr : SameRecord r r') :
    Result.Sim (SameLedger height)
      (fun t v t' v' => SameLedger height t t' ∧ SameRecord v v')
      ((updateBurned r e).run s) ((updateBurned r' e).run s') := by
  rw [updateBurned_run, updateBurned_run, hs.entry]
  cases s'.runeIdToRuneEntry.get? e.1 with
  | none => exact .trap _
  | some entry =>
    dsimp only
    split
    · refine .ok ⟨hs.change ?_ (.of_eq rfl rfl rfl rfl rfl rfl)
        (.of_eq rfl rfl rfl rfl rfl rfl), { hr with burned := ?_ }⟩
      · rw [Store.ledger_memInsertRuneIdToRuneEntry, Store.ledger_memInsertRuneIdToRuneEntry,
          hs.ledger]
      · rw [hr.burned]
    · exact .trap _

end RuneUpdater

/-! ### A whole block -/

/-- The record of the block at `height` is stored on both sides. -/
def SameRecordAt (height : Nat) (s s' : Store) : Prop :=
  ∃ r r', s.heightToChangeRecord.get? height = some r ∧
    s'.heightToChangeRecord.get? height = some r' ∧ SameRecord r r'

namespace RuneUpdater

theorem update_sim (ord ord' : HashOrder) {height : Nat} {s s' : Store} {u u' : RuneUpdater}
    (hs : SameLedger height s s') (hu : SameUpdater height u u') :
    Result.Sim (SameLedger height)
      (fun t _ t' _ => SameLedger height t t' ∧ SameRecordAt height t t')
      ((u.update ord).run s) ((u'.update ord').run s') := by
  unfold update
  rw [hu.burned, updateBurned_perm (iter_perm_iter ord ord' (.blockBurned u.height)
    (.blockBurned u'.height) u'.burned)]
  refine Sync.sim_bind (Sync.sim_foldlM
    (fun e _ _ _ _ _ h => updateBurned_sim e h.1 h.2) ⟨hs, hu.record⟩) ?_
  rintro s r s' r' ⟨hs, hr⟩
  rw [hu.height, hu.height']
  exact .ok ⟨⟨hs.ledger, ⟨hs.rows.runes, hs.rows.reserved, hs.rows.runesRow, hs.rows.reservedRow⟩,
      ⟨hs.rows'.runes, hs.rows'.reserved, hs.rows'.runesRow, hs.rows'.reservedRow⟩⟩,
    r, r', FinMap.get?_insert_self _ _ _, FinMap.get?_insert_self _ _ _, hr⟩

end RuneUpdater

theorem sameLedger_startBlock {height : Nat} {s s' : Store} (hrows : s.RowsUpTo height)
    (hrows' : s'.RowsUpTo height) (hledger : s.ledger = s'.ledger) :
    SameLedger height (startBlock height s) (startBlock height s') :=
  ⟨by rw [startBlock_ledger hrows, startBlock_ledger hrows', hledger],
    startBlock_rowsEndAt hrows, startBlock_rowsEndAt hrows'⟩

/-- From states with one ledger, a block makes the same calls and ends the same way. -/
theorem indexBlock_sim (lib : Crates) (ord ord' : HashOrder) (network : BitcoinNetwork)
    (height : Nat) (b : BlockData) {s s' : Store} (hrows : s.RowsUpTo height)
    (hrows' : s'.RowsUpTo height) (hledger : s.ledger = s'.ledger) :
    Proc.Sim (SameLedger height)
      (fun t _ t' _ => SameLedger height t t' ∧ SameRecordAt height t t')
      ((indexBlock lib ord network height b).run s)
      ((indexBlock lib ord' network height b).run s') := by
  unfold indexBlock
  have hruns : s.memStatisticRunes = s'.memStatisticRunes := congrArg Ledger.runes hledger
  have hs := sameLedger_startBlock hrows hrows' hledger
  refine Proc.Sim.bind (R := fun t runes t' runes' => SameLedger height t t' ∧ runes = runes')
    (.ok ⟨hs, hruns⟩) ?_
  rintro s runes s' _ ⟨hs, rfl⟩
  refine Proc.Sim.bind (indexTransactions_sim lib ord ord' b.txdata 0 hs
    ⟨rfl, rfl, rfl, rfl, rfl, rfl, .refl _⟩) ?_
  rintro s u s' u' ⟨hs, hu⟩
  refine Proc.Sim.bind (.of_result (RuneUpdater.update_sim ord ord' hs hu)) ?_
  rintro s ⟨⟩ s' ⟨⟩ ⟨hs, hr⟩
  exact .ok ⟨⟨hs.ledger, ⟨hs.rows.runes, hs.rows.reserved, hs.rows.runesRow, hs.rows.reservedRow⟩,
    ⟨hs.rows'.runes, hs.rows'.reserved, hs.rows'.runesRow, hs.rows'.reservedRow⟩⟩, hr⟩

end RunesIndexer
