import RunesIndexer.Lib.Monitor
import RunesIndexer.Spec.Amounts
import RunesIndexer.Spec.UndoWindow

/-! # Nothing below the first height

    Every id in the stable maps is the position of a transaction that was indexed, so
    none lies below the first indexed height. Each function of the index keeps this
    whatever other segments do at its calls, as long as they keep it too.
-/

namespace RunesIndexer

open Resumption MonadicFold RuneUpdater

/-! ### The invariant -/

/-- The runes of a map. -/
abbrev LotMap.Since (first : Nat) (m : LotMap) : Prop := m.KeysIn fun id => first ≤ id.block

/-- The runes of an outpoint. -/
def RuneBalances.Since (first : Nat) (l : RuneBalances) : Prop :=
  ∀ b ∈ l, first ≤ b.runeId.block

/-- The runes that an undone block gives back. -/
def ChangeRecord.Since (first : Nat) (r : ChangeRecord) : Prop :=
  ∀ e ∈ r.removedOutpoints, RuneBalances.Since first e.2.1

structure Store.Since (network : BitcoinNetwork) (first : Nat) (s : Store) : Prop where
  network : s.config.network = network
  headers : s.heightToBlockHeader.All fun h _ => first ≤ h
  entries : s.runeIdToRuneEntry.All fun id _ => first ≤ id.block
  names : s.runeToRuneId.All fun _ id => first ≤ id.block
  balances : s.outpointToRuneBalances.All fun _ l => RuneBalances.Since first l
  records : s.heightToChangeRecord.All fun _ r => r.Since first

structure RuneUpdater.Since (first : Nat) (u : RuneUpdater) : Prop where
  height : first ≤ u.height
  record : u.changeRecord.Since first

variable {network : BitcoinNetwork} {first : Nat}

/-- What an iteration over a map comes by. -/
theorem LotMap.KeysIn.iter {P : RuneId → Prop} {m : LotMap} (h : m.KeysIn P) (ord : HashOrder)
    (site : IterSite) : ∀ e ∈ ord.iter site m, P e.1 := by
  intro e he
  exact h e.1 (by rw [mem_iter.mp he]; rfl)

namespace Store.Since

variable {s : Store}

theorem empty (config : Config) : (Store.empty config).Since config.network first :=
  ⟨rfl, .empty, .empty, .empty, .empty, .empty⟩

/-- The height that comes next. -/
theorem nextBlock (h : s.Since network first) {lib : Crates} {network' : BitcoinNetwork}
    (hfirst : first ≤ lib.firstRuneHeight network') : first ≤ (s.nextBlock lib network').1 := by
  unfold Store.nextBlock Store.memLatestBlock
  cases hlast : s.heightToBlockHeader.last? with
  | none => exact hfirst
  | some e =>
    have hle := h.headers e.1 e.2 (FinMap.last?_eq_some.mp hlast).1
    exact le_trans hle (Nat.le_succ _)

theorem insertEntry (h : s.Since network first) {id : RuneId} (hid : first ≤ id.block)
    (e : RuneEntry) : (s.memInsertRuneIdToRuneEntry id e).Since network first :=
  ⟨h.network, h.headers, h.entries.insert hid, h.names, h.balances, h.records⟩

theorem insertBalances (h : s.Since network first) {l : RuneBalances} (hl : l.Since first)
    (o : OutPoint) : (s.memInsertOutpointToRuneBalances o l).Since network first :=
  ⟨h.network, h.headers, h.entries, h.names, h.balances.insert hl, h.records⟩

theorem removeBalances (h : s.Since network first) (o : OutPoint) :
    (s.memRemoveOutpointToRuneBalances o).Since network first :=
  ⟨h.network, h.headers, h.entries, h.names, h.balances.erase o, h.records⟩

/-- What a controller may write keeps the network. -/
theorem control (h : s.Since network first) (config : Config) (flag : Bool)
    (hconfig : config.network = network) :
    Store.Since network first { s with config := config, shuttingDown := flag } :=
  ⟨hconfig, h.headers, h.entries, h.names, h.balances, h.records⟩

/-- The heights of the outpoints do not matter. -/
theorem heights (h : s.Since network first) (m : FinMap OutPoint Nat) :
    Store.Since network first { s with outpointToHeight := m } :=
  ⟨h.network, h.headers, h.entries, h.names, h.balances, h.records⟩

end Store.Since

/-- Code of the index that leaves nothing below the first height. -/
abbrev IndexM.Since {α : Type} (network : BitcoinNetwork) (first : Nat) (R : α → Prop)
    (x : IndexM α) : Prop :=
  Sync.Maintains (Store.Since network first) R x

abbrev AsyncM.Since {α : Type} (network : BitcoinNetwork) (first : Nat) (R : α → Prop)
    (x : AsyncM α) : Prop :=
  Async.Maintains (Store.Since network first) R x

/-! ### One transaction -/

/-- A map of amounts and the updater, between two phases of a transaction. -/
def PairSince (first : Nat) (st : LotMap × RuneUpdater) : Prop :=
  st.1.Since first ∧ st.2.Since first

namespace RuneUpdater

theorem unallocatedInput_since {st : LotMap × RuneUpdater} (h : PairSince first st)
    (input : TxIn) : IndexM.Since network first (PairSince first) (unallocatedInput st input) := by
  refine .bind (.gets (R := fun x => ∀ l, x = some l → RuneBalances.Since first l)
    fun s hs l hl => hs.balances _ l hl) fun x hx => ?_
  cases x with
  | none => exact .pure h
  | some l =>
    have hl := hx l rfl
    refine .bind (.modify fun s hs => hs.removeBalances _) fun _ _ => ?_
    refine .bind (.ofExcept (R := LotMap.Since first) fun t ht => ?_) fun t ht => ?_
    · refine except_foldlM_invariant (P := LotMap.Since first) ?_ h.1 ht
      exact fun b hb m m' hm hadd => hm.addTo (hl b hb) hadd
    · refine .bind (.gets fun _ _ => trivial) fun y (_ : True) => ?_
      cases y with
      | none => exact .fail _
      | some height =>
        refine .bind (.modify fun s hs => hs.heights _) fun _ _ => ?_
        refine .pure ⟨ht, h.2.height, fun e he => ?_⟩
        rcases List.mem_append.mp he with he | he
        · exact h.2.record e he
        · rw [List.mem_singleton] at he
          subst he
          exact hl

theorem unallocated_since {u : RuneUpdater} (hu : u.Since first) (tx : Transaction) :
    IndexM.Since network first (PairSince first) (u.unallocated tx) :=
  .foldlM ⟨LotMap.keysIn_empty _, hu⟩ fun input _ _ hst => unallocatedInput_since hst input

/-- Only a rune that has an entry is minted. -/
theorem mint_since {u : RuneUpdater} (hu : u.Since first) (id : RuneId) :
    IndexM.Since network first (fun x => x.2.Since first ∧ (x.1.isSome → first ≤ id.block))
      (u.mint id) := by
  refine .bind (.gets (R := fun x => ∀ e, x = some e → first ≤ id.block)
    fun s hs e he => hs.entries id e he) fun x hx => ?_
  cases x with
  | none => exact .pure ⟨hu, nofun⟩
  | some e =>
    have hid := hx e rfl
    dsimp only
    split
    · exact .pure ⟨hu, nofun⟩
    · refine .bind (.modify fun s hs => hs.insertEntry hid _) fun _ _ => ?_
      exact .pure ⟨⟨hu.height, hu.record⟩, fun _ => hid⟩

theorem indexMint_since {u : RuneUpdater} {t : LotMap} (h : PairSince first (t, u))
    (artifact : Artifact) :
    IndexM.Since network first (PairSince first) (u.indexMint artifact t) := by
  unfold indexMint
  split
  · exact .pure h
  · refine .bind (mint_since h.2 _) fun x hx => ?_
    obtain ⟨amount, u'⟩ := x
    cases amount with
    | none => exact .pure ⟨h.1, hx.1⟩
    | some amount =>
      refine .bind (.ofExcept (R := LotMap.Since first) fun t' ht' => ?_) fun t' ht' => ?_
      · exact h.1.addTo (hx.2 rfl) ht'
      · exact .pure ⟨ht', hx.1⟩

/-! ### Etchings -/

theorem ofResult_maintains {I : Store → Prop} {α : Type} (x : Except Error α) :
    Sync.Maintains I (fun _ => True) (ofResult x) := by
  cases x with
  | ok a => exact .pure trivial
  | error e => exact .fail e

theorem txCommitsToRune_maintains {I : Store → Prop} (lib : Crates) (u : RuneUpdater)
    (tx : Transaction) (rune : Rune) :
    Async.Maintains I (fun _ => True) (txCommitsToRune lib u tx rune) := by
  have hrules : CommitRules fun _ x => Async.Maintains I (fun _ => True) x :=
    { pure := fun _ => .pure trivial
      bind := fun hx hf => .bind hx fun a _ => hf a
      fail := fun e => .lift (.fail e)
      ofExcept := fun _ => .ofExcept fun _ _ => trivial
      transaction := fun _ => .bind (.call _) fun reply _ => .lift (ofResult_maintains reply)
      header := fun _ => .bind (.call _) fun reply _ => .lift (ofResult_maintains reply) }
  exact hrules.txCommitsToRune lib u tx rune

/-- An accepted etching has the position of its transaction as id. -/
theorem etched_since (lib : Crates) {u : RuneUpdater} (hu : u.Since first) (txIndex : Nat)
    (tx : Transaction) (artifact : Artifact) :
    AsyncM.Since network first (fun x => ∀ id ∈ x.map Prod.fst, first ≤ id.block)
      (etched lib u txIndex tx artifact) := by
  have hid : ∀ rune : Rune, ∀ id ∈ (some ((⟨u.height, txIndex⟩ : RuneId), rune)).map Prod.fst,
      first ≤ id.block := by
    intro rune id h
    cases h
    exact hu.height
  unfold etched
  split
  · exact .pure nofun
  · refine .bind (.lift (.gets (R := fun _ => True) fun _ _ => trivial)) fun taken _ => ?_
    split
    · exact .pure nofun
    · refine .bind (txCommitsToRune_maintains lib u tx _) fun commits _ => ?_
      split
      · exact .pure (hid _)
      · exact .pure nofun
  · refine .bind (.lift (.gets (R := fun _ => True) fun _ _ => trivial)) fun n _ => ?_
    refine .bind (.lift (.modify fun s hs => ?_)) fun _ _ => .pure (hid _)
    exact ⟨hs.network, hs.headers, hs.entries, hs.names, hs.balances, hs.records⟩

theorem createRuneEntry_since {u : RuneUpdater} (hu : u.Since first) (txid : Txid)
    (artifact : Artifact) {id : RuneId} (hid : first ≤ id.block) (rune : Rune) :
    IndexM.Since network first (RuneUpdater.Since first)
      (u.createRuneEntry txid artifact id rune) := by
  refine .bind (.modify fun s hs => ?_) fun _ _ => ?_
  · exact ⟨hs.network, hs.headers, hs.entries, hs.names.insert hid, hs.balances, hs.records⟩
  refine .bind (.modify fun s hs => ?_) fun _ _ => ?_
  · exact ⟨hs.network, hs.headers, hs.entries, hs.names, hs.balances, hs.records⟩
  refine .bind (.modify fun s hs => ?_) fun _ _ => ?_
  · exact ⟨hs.network, hs.headers, hs.entries, hs.names, hs.balances, hs.records⟩
  refine .bind (.ofExcept (R := fun _ => True) fun _ _ => trivial) fun entry _ => ?_
  refine .bind (.modify fun s hs => hs.insertEntry hid entry) fun _ _ => ?_
  exact .pure ⟨hu.height, hu.record⟩

/-! ### Allocation and outputs -/

/-- The amounts that are left and those of each output. -/
def SplitSince (first : Nat) (x : LotMap × List LotMap × RuneUpdater) : Prop :=
  x.1.Since first ∧ AllIn (fun id n => first ≤ id.block ∧ 0 < n) x.2.1 ∧ x.2.2.Since first

theorem indexArtifact_since (lib : Crates) {u : RuneUpdater} {t : LotMap}
    (h : PairSince first (t, u)) (txIndex : Nat) (tx : Transaction) (txid : Txid)
    (artifact : Artifact) :
    AsyncM.Since network first (SplitSince first)
      (indexArtifact lib u txIndex tx txid artifact t) := by
  refine .bind (.lift (indexMint_since h artifact)) fun x hx => ?_
  obtain ⟨t₁, u₁⟩ := x
  refine .bind (etched_since lib hx.2 txIndex tx artifact) fun etched hetched => ?_
  refine .bind (.ofExcept (R := fun y : LotMap × List LotMap => y.1.Since first ∧
    AllIn (fun id n => first ≤ id.block ∧ 0 < n) y.2) fun y hy => ?_) fun y hy => ?_
  · obtain ⟨-, -, hkeys⟩ := indexRunestone_total hy
    exact hkeys (fun id => first ≤ id.block) hx.1 hetched
  · cases etched with
    | none => exact .pure ⟨hy.1, hy.2, hx.2⟩
    | some pair =>
      refine .bind (.lift (createRuneEntry_since hx.2 txid artifact (hetched _ rfl) pair.2))
        fun u₂ hu₂ => ?_
      exact .pure ⟨hy.1, hy.2, hu₂⟩

theorem updateOutpoint_since (lib : Crates) (ord : HashOrder) (txIndex : Nat) (tx : Transaction)
    (txid : Txid) {st : LotMap × RuneUpdater} (h : st.2.Since first) {output : LotMap × Nat}
    (houtput : output.1.Since first) :
    IndexM.Since network first (fun st => st.2.Since first)
      (updateOutpoint lib ord txIndex tx txid st output) := by
  unfold updateOutpoint
  dsimp only
  split
  · exact .pure h
  · refine .bind (.ofExcept (R := fun _ => True) fun _ _ => trivial) fun txOut _ => ?_
    split
    · refine .bind (.ofExcept (R := fun _ => True) fun _ _ => trivial) fun b _ => ?_
      exact .pure h
    · refine .bind (.modify fun s hs => hs.insertBalances (fun b hb => ?_) _) fun _ _ => ?_
      · obtain ⟨e, he, rfl⟩ := List.mem_map.mp hb
        exact houtput.iter ord _ e he
      · refine .bind (.modify fun s hs => hs.heights _) fun _ _ => ?_
        exact .pure ⟨h.height, h.record⟩

theorem finishTransaction_since (lib : Crates) (ord : HashOrder) {u : RuneUpdater}
    (hu : u.Since first) (txIndex : Nat) (tx : Transaction) (txid : Txid)
    (artifact : Option Artifact) {t : LotMap} (ht : t.Since first) {a : List LotMap}
    (ha : AllIn (fun id n => first ≤ id.block ∧ 0 < n) a) :
    IndexM.Since network first (RuneUpdater.Since first)
      (finishTransaction lib ord u txIndex tx txid artifact t a) := by
  refine .bind (.ofExcept (R := fun y : List LotMap × LotMap =>
    AllIn (fun id n => first ≤ id.block ∧ 0 < n) y.1) fun y hy => ?_) fun y hy => ?_
  · obtain ⟨-, -, hkeys⟩ := assignUnallocated_total hy
    exact (hkeys (fun id => first ≤ id.block) (ht.iter ord _) ha).1
  · refine .bind (.foldlM (S := fun st : LotMap × RuneUpdater => st.2.Since first) hu ?_)
      fun st hst => ?_
    · intro output houtput st hst
      refine updateOutpoint_since lib ord txIndex tx txid hst fun id hid => ?_
      obtain ⟨n, hn⟩ := Option.isSome_iff_exists.mp hid
      exact (hy output.1 (List.fst_mem_of_mem_zipIdx houtput) id n hn).1
    · refine .bind (.ofExcept (R := fun _ => True) fun _ _ => trivial) fun b _ => ?_
      exact .pure ⟨hst.height, hst.record⟩

theorem indexRunes_since (lib : Crates) (ord : HashOrder) {u : RuneUpdater} (hu : u.Since first)
    (txIndex : Nat) (tx : Transaction) (txid : Txid) :
    AsyncM.Since network first (RuneUpdater.Since first)
      (u.indexRunes lib ord txIndex tx txid) := by
  refine .bind (.lift (unallocated_since hu tx)) fun x hx => ?_
  obtain ⟨t, u₁⟩ := x
  refine .bind (R := SplitSince first) ?_ fun y hy => ?_
  · cases lib.decipher tx with
    | none => exact .pure ⟨hx.1, allIn_replicate _ _, hx.2⟩
    | some artifact => exact indexArtifact_since lib hx txIndex tx txid artifact
  · exact .lift (finishTransaction_since lib ord hy.2.2 txIndex tx txid _ hy.1 hy.2.1)

/-- The flush writes counts of entries that are there. -/
theorem update_since (ord : HashOrder) {u : RuneUpdater} (hu : u.Since first) :
    IndexM.Since network first (fun _ => True) (u.update ord) := by
  refine .bind (.foldlM (S := ChangeRecord.Since first) hu.record ?_) fun record hrecord => ?_
  · intro e _ record hrecord
    refine .bind (.gets (R := fun x => ∀ entry, x = some entry → first ≤ e.1.block)
      fun s hs entry he => hs.entries _ entry he) fun x hx => ?_
    refine .bind (.ofExcept (R := fun _ => first ≤ e.1.block)
      fun entry he => hx entry (unwrap_eq_ok.mp he)) fun entry hid => ?_
    refine .bind (.ofExcept (R := fun _ => True) fun _ _ => trivial) fun burned _ => ?_
    refine .bind (.modify fun s hs => hs.insertEntry hid _) fun _ _ => ?_
    exact .pure hrecord
  · refine .modify fun s hs => ?_
    exact ⟨hs.network, hs.headers, hs.entries, hs.names, hs.balances, hs.records.insert hrecord⟩

end RuneUpdater

/-! ### Blocks -/

theorem indexTransactions_since (lib : Crates) (ord : HashOrder)
    (l : List (Transaction × Txid)) {u : RuneUpdater} (hu : u.Since first) (i : Nat) :
    AsyncM.Since network first (RuneUpdater.Since first) (indexTransactions lib ord u i l) := by
  induction l generalizing u i with
  | nil => exact .pure hu
  | cons e rest ih =>
    refine .bind (indexRunes_since lib ord hu i e.1 e.2) fun u' hu' => ?_
    exact ih hu' (i + 1)

theorem indexBlock_since (lib : Crates) (ord : HashOrder) (network' : BitcoinNetwork)
    {height : Nat} (hheight : first ≤ height) (b : BlockData) :
    AsyncM.Since network first (fun _ => True) (indexBlock lib ord network' height b) := by
  refine .bind (.lift (R := fun _ => True) ?_) fun runes _ => ?_
  · refine .bind (.gets (R := fun _ => True) fun _ _ => trivial) fun runes _ => ?_
    refine .bind (.gets (R := fun _ => True) fun _ _ => trivial) fun reserved _ => ?_
    refine .bind (.modify fun s hs => ?_) fun _ _ => ?_
    · exact ⟨hs.network, hs.headers, hs.entries, hs.names, hs.balances, hs.records⟩
    refine .bind (.modify fun s hs => ?_) fun _ _ => .pure trivial
    exact ⟨hs.network, hs.headers, hs.entries, hs.names, hs.balances, hs.records⟩
  · refine .bind (indexTransactions_since lib ord b.txdata
      ⟨hheight, fun e he => absurd he List.not_mem_nil⟩ 0) fun u hu => ?_
    refine .bind (.lift (update_since ord hu)) fun _ _ => ?_
    refine .lift (.modify fun s hs => ?_)
    exact ⟨hs.network, hs.headers.insert hheight, hs.entries, hs.names, hs.balances, hs.records⟩

/-! ### Rollback -/

namespace Reorg

/-- Setting a count of an entry that is there. -/
theorem resetEntry_since (id : RuneId) (f : RuneEntry → RuneEntry) :
    IndexM.Since network first (fun _ => True) (resetEntry id f) := by
  refine .bind (.gets (R := fun x => ∀ entry, x = some entry → first ≤ id.block)
    fun s hs entry he => hs.entries _ entry he) fun x hx => ?_
  refine .bind (.ofExcept (R := fun _ => first ≤ id.block)
    fun entry he => hx entry (unwrap_eq_ok.mp he)) fun entry hid => ?_
  exact .modify fun s hs => hs.insertEntry hid _

theorem undoRecord_since (ord : HashOrder) (height : Nat) {record : ChangeRecord}
    (h : record.Since first) :
    IndexM.Since network first (fun _ => True) (undoRecord ord height record) := by
  refine .bind (.modify fun s hs => ?_) fun _ _ => ?_
  · refine List.foldlRecOn (motive := Store.Since network first) _ restoreOutpoint hs
      fun s hs e he => (hs.insertBalances (h e he) _).heights _
  refine .bind (.modify fun s hs => ?_) fun _ _ => ?_
  · exact List.foldlRecOn (motive := Store.Since network first) _ removeOutpoint hs
      fun s hs o _ => (hs.removeBalances o).heights _
  refine .bind (.forM fun e _ => resetEntry_since e.1 fun entry => { entry with burned := e.2 })
    fun _ _ => ?_
  refine .bind (.forM fun e _ => resetEntry_since e.1 fun entry => { entry with mints := e.2 })
    fun _ _ => ?_
  refine .modify fun s hs => ?_
  exact List.foldlRecOn (motive := Store.Since network first) _ removeRune hs fun s hs e _ =>
    ⟨hs.network, hs.headers, hs.entries.erase _, hs.names.erase _, hs.balances, hs.records⟩

theorem rollbackHeight_since (ord : HashOrder) (height : Nat) :
    IndexM.Since network first (fun _ => True) (rollbackHeight ord height) := by
  rw [rollbackHeight_eq]
  have hdrop : IndexM.Since network first (fun _ => True) (modify (dropHeight height)) :=
    .modify fun s hs =>
      ⟨hs.network, hs.headers.erase _, hs.entries, hs.names, hs.balances, hs.records.erase _⟩
  refine .bind (.gets (R := fun x => ∀ r, x = some r → ChangeRecord.Since first r)
    fun s hs r hr => hs.records _ r hr) fun x hx => ?_
  cases x with
  | none => exact hdrop
  | some record => exact .bind (undoRecord_since ord height (hx record rfl)) fun _ _ => hdrop

theorem handleReorg_since (ord : HashOrder) (height depth : Nat) :
    IndexM.Since network first (fun _ => True) (handleReorg ord height depth) :=
  .forM fun k _ => rollbackHeight_since ord k

theorem pruneChangeRecord_since (network' : BitcoinNetwork) (height : Nat) {s : Store}
    (h : s.Since network first) : (pruneChangeRecord network' height s).Since network first := by
  unfold pruneChangeRecord
  split
  · exact ⟨h.network, h.headers.filterKeys _, h.entries, h.names, h.balances,
      h.records.filterKeys _⟩
  · exact h

theorem detectReorg_maintains {I : Store → Prop} (lib : Crates) (network : BitcoinNetwork)
    (indexPrev : Option BlockHash) (prev : BlockHash) (height : Nat) :
    Async.Maintains I (fun _ => True) (detectReorg lib network indexPrev prev height) := by
  have hrules : DetectRules fun _ x => Async.Maintains I (fun _ => True) x :=
    { pure := fun _ => .pure trivial
      bind := fun hx hf => .bind hx fun a _ => hf a
      stored := fun _ _ => .lift (.gets fun _ _ => trivial)
      node := fun _ _ => .call _ }
  exact hrules.detectReorg lib network indexPrev prev height

end Reorg

/-! ### The loop -/

theorem getBlock_maintains {I : Store → Prop} (lib : Crates) (hash : BlockHash) :
    Async.Maintains I (fun _ => True) (getBlock lib hash) := by
  refine .bind (.call _) fun reply _ => ?_
  refine .bind (.lift (ofResult_maintains _)) fun block _ => ?_
  split
  · exact .lift (.fail _)
  · split
    · exact .pure trivial
    · exact .lift (.fail _)

theorem notifySubscribers_maintains {I : Store → Prop} (height : Nat) (hash : BlockHash)
    (block : BlockData) (subscribers : List Nat) :
    Async.Maintains I (fun _ => True) (notifySubscribers height hash block subscribers) := by
  induction subscribers with
  | nil => exact .pure trivial
  | cons subscriber rest ih =>
    refine .bind (R := fun _ => True) (.bind (.call _) fun _ _ => ?_) fun _ _ => ih
    exact .pure trivial

theorem rearmUnlessStopped_maintains {I : Store → Prop} :
    Async.Maintains I (fun _ => True) rearmUnlessStopped := by
  refine .bind (.lift (.gets (R := fun _ => True) fun _ _ => trivial)) fun flag _ => ?_
  split
  · exact .pure trivial
  · exact .pure trivial

theorem processBlock_since (lib : Crates) (ord : HashOrder) (network' : BitcoinNetwork)
    (subscribers : List Nat) {height : Nat} (hheight : first ≤ height)
    (indexPrev : Option BlockHash) (hash : BlockHash) (block : BlockData) :
    AsyncM.Since network first (fun _ => True)
      (processBlock lib ord network' subscribers height indexPrev hash block) := by
  refine .bind (Reorg.detectReorg_maintains lib network' indexPrev _ height) fun reorg _ => ?_
  split
  · refine .bind (.attempt (indexBlock_since lib ord network' hheight block)) fun x _ => ?_
    cases x with
    | error e => exact .pure trivial
    | ok _ =>
      refine .bind (.lift (.modify fun s hs => ?_)) fun _ _ => ?_
      · exact Reorg.pruneChangeRecord_since network' height hs
      · refine .bind (notifySubscribers_maintains height hash block subscribers) fun _ _ => ?_
        exact rearmUnlessStopped_maintains
  · refine .bind (.lift (Reorg.handleReorg_since ord _ _)) fun _ _ => ?_
    exact rearmUnlessStopped_maintains
  · exact .pure trivial
  · exact rearmUnlessStopped_maintains

/-- The callback of the loop keeps the stable maps above the first height, whatever runs
    while it awaits an answer and keeps them above it too. -/
theorem updateIndexIteration_since (lib : Crates) (ord : HashOrder) {network' : BitcoinNetwork}
    (hfirst : first ≤ lib.firstRuneHeight network') (subscribers : List Nat) :
    AsyncM.Since network first (fun _ => True)
      (updateIndexIteration lib ord network' subscribers) := by
  refine .bind (.lift (.gets (R := fun x : Nat × Option BlockHash => first ≤ x.1)
    fun s hs => hs.nextBlock hfirst)) fun x hx => ?_
  obtain ⟨height, indexPrev⟩ := x
  refine .bind (.call _) fun reply _ => ?_
  split
  · refine .bind (.attempt (getBlock_maintains lib _)) fun y _ => ?_
    cases y with
    | error e => exact rearmUnlessStopped_maintains
    | ok block => exact processBlock_since lib ord network' subscribers hx indexPrev _ block
  · exact rearmUnlessStopped_maintains
  · exact rearmUnlessStopped_maintains

end RunesIndexer
