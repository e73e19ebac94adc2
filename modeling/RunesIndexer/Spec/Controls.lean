import RunesIndexer.Lib.Interference
import RunesIndexer.Model.Schedule
import RunesIndexer.Spec.Rollback

/-! # What the indexer does not read

    A controller may set the flag and the configuration while the indexer waits for an
    answer. Up to the last read of the flag nothing in the callback depends on them: it
    respects `Store.SameMaps`.
-/

namespace RunesIndexer

open Resumption

/-- The same but for the configuration and the flag. -/
def Store.SameMaps (s s' : Store) : Prop :=
  ∃ config flag, s' = { s with config := config, shuttingDown := flag }

theorem Store.sameMaps_equivalence : Equivalence Store.SameMaps where
  refl s := ⟨s.config, s.shuttingDown, rfl⟩
  symm h := by
    obtain ⟨config, flag, rfl⟩ := h
    exact ⟨_, _, rfl⟩
  trans h h' := by
    obtain ⟨config, flag, rfl⟩ := h
    obtain ⟨config', flag', rfl⟩ := h'
    exact ⟨_, _, rfl⟩

/-- Code of the index that depends on the maps only. -/
abbrev IndexM.MapsOnly {α : Type} (x : IndexM α) : Prop := Sync.Respects Store.SameMaps x

abbrev AsyncM.MapsOnly {α : Type} (x : AsyncM α) : Prop := Async.Respects Store.SameMaps x

/-- Reading a map. -/
theorem IndexM.mapsOnly_gets {α : Type} {f : Store → α}
    (h : ∀ s config flag, f { s with config := config, shuttingDown := flag } = f s) :
    IndexM.MapsOnly (gets f) := by
  apply Sync.Respects.gets
  intro s s' hs
  obtain ⟨config, flag, rfl⟩ := hs
  exact (h s config flag).symm

/-- Writing to a map. -/
theorem IndexM.mapsOnly_modify {f : Store → Store}
    (h : ∀ s config flag, f { s with config := config, shuttingDown := flag } =
      { f s with config := config, shuttingDown := flag }) : IndexM.MapsOnly (modify f) := by
  apply Sync.Respects.modify
  intro s s' hs
  obtain ⟨config, flag, rfl⟩ := hs
  exact ⟨config, flag, h s config flag⟩

/-- A fold of writes to the maps. -/
theorem foldl_controls {α : Type} {f : Store → α → Store}
    (h : ∀ a s config flag, f { s with config := config, shuttingDown := flag } a =
      { f s a with config := config, shuttingDown := flag }) (l : List α) (s : Store)
    (config : Config) (flag : Bool) :
    l.foldl f { s with config := config, shuttingDown := flag } =
      { l.foldl f s with config := config, shuttingDown := flag } := by
  induction l generalizing s with
  | nil => rfl
  | cons a l ih =>
    rw [List.foldl_cons, List.foldl_cons, h]
    exact ih (f s a)

open IndexM (mapsOnly_gets mapsOnly_modify)

/-! ### One transaction -/

theorem ofResult_mapsOnly {α : Type} (x : Except Error α) : IndexM.MapsOnly (ofResult x) := by
  cases x with
  | ok a => exact .pure a
  | error e => exact .fail e

namespace RuneUpdater

theorem unallocatedInput_mapsOnly (st : LotMap × RuneUpdater) (input : TxIn) :
    IndexM.MapsOnly (unallocatedInput st input) := by
  apply Sync.Respects.bind (mapsOnly_gets fun _ _ _ => rfl)
  intro x
  cases x with
  | none => exact .pure st
  | some l =>
    apply Sync.Respects.bind (mapsOnly_modify fun _ _ _ => rfl)
    intro _
    apply Sync.Respects.bind (.ofExcept _)
    intro t
    apply Sync.Respects.bind (mapsOnly_gets fun _ _ _ => rfl)
    intro height
    cases height with
    | none => exact .fail _
    | some height => exact .bind (mapsOnly_modify fun _ _ _ => rfl) fun _ => .pure _

theorem mint_mapsOnly (u : RuneUpdater) (id : RuneId) : IndexM.MapsOnly (u.mint id) := by
  apply Sync.Respects.bind (mapsOnly_gets fun _ _ _ => rfl)
  intro x
  cases x with
  | none => exact .pure _
  | some e =>
    dsimp only
    split
    · exact .pure _
    · exact .bind (mapsOnly_modify fun _ _ _ => rfl) fun _ => .pure _

theorem indexMint_mapsOnly (u : RuneUpdater) (artifact : Artifact) (t : LotMap) :
    IndexM.MapsOnly (u.indexMint artifact t) := by
  unfold indexMint
  split
  · exact .pure _
  · apply Sync.Respects.bind (mint_mapsOnly u _)
    intro x
    obtain ⟨amount, u'⟩ := x
    cases amount with
    | none => exact .pure _
    | some amount => exact .bind (.ofExcept _) fun _ => .pure _

theorem txCommitsToRune_mapsOnly (lib : Crates) (u : RuneUpdater) (tx : Transaction)
    (rune : Rune) : AsyncM.MapsOnly (txCommitsToRune lib u tx rune) := by
  have hrules : CommitRules fun _ x => AsyncM.MapsOnly x :=
    { pure := fun a => .pure a
      bind := fun hx hf => .bind hx hf
      fail := fun e => .lift (.fail e)
      ofExcept := fun x => .ofExcept x
      transaction := fun _ => .bind (.call _) fun reply => .lift (ofResult_mapsOnly reply)
      header := fun _ => .bind (.call _) fun reply => .lift (ofResult_mapsOnly reply) }
  exact hrules.txCommitsToRune lib u tx rune

theorem etched_mapsOnly (lib : Crates) (u : RuneUpdater) (txIndex : Nat) (tx : Transaction)
    (artifact : Artifact) : AsyncM.MapsOnly (etched lib u txIndex tx artifact) := by
  unfold etched
  split
  · exact .pure none
  · apply Async.Respects.bind (.lift (mapsOnly_gets fun _ _ _ => rfl))
    intro taken
    split
    · exact .pure none
    · apply Async.Respects.bind (txCommitsToRune_mapsOnly lib u tx _)
      intro commits
      split
      · exact .pure _
      · exact .pure none
  · apply Async.Respects.bind (.lift (mapsOnly_gets fun _ _ _ => rfl))
    intro n
    exact .bind (.lift (mapsOnly_modify fun _ _ _ => rfl)) fun _ => .pure _

theorem createRuneEntry_mapsOnly (u : RuneUpdater) (txid : Txid) (artifact : Artifact)
    (id : RuneId) (rune : Rune) : IndexM.MapsOnly (u.createRuneEntry txid artifact id rune) := by
  apply Sync.Respects.bind (mapsOnly_modify fun _ _ _ => rfl)
  intro _
  apply Sync.Respects.bind (mapsOnly_modify fun _ _ _ => rfl)
  intro _
  apply Sync.Respects.bind (mapsOnly_modify fun _ _ _ => rfl)
  intro _
  apply Sync.Respects.bind (.ofExcept _)
  intro entry
  exact .bind (mapsOnly_modify fun _ _ _ => rfl) fun _ => .pure _

theorem indexArtifact_mapsOnly (lib : Crates) (u : RuneUpdater) (txIndex : Nat)
    (tx : Transaction) (txid : Txid) (artifact : Artifact) (t : LotMap) :
    AsyncM.MapsOnly (indexArtifact lib u txIndex tx txid artifact t) := by
  apply Async.Respects.bind (.lift (indexMint_mapsOnly u artifact t))
  intro x
  apply Async.Respects.bind (etched_mapsOnly lib _ txIndex tx artifact)
  intro etched
  apply Async.Respects.bind (.ofExcept _)
  intro y
  cases etched with
  | none => exact .pure _
  | some pair =>
    exact .bind (.lift (createRuneEntry_mapsOnly _ txid artifact pair.1 pair.2)) fun _ => .pure _

theorem updateOutpoint_mapsOnly (lib : Crates) (ord : HashOrder) (txIndex : Nat)
    (tx : Transaction) (txid : Txid) (st : LotMap × RuneUpdater) (output : LotMap × Nat) :
    IndexM.MapsOnly (updateOutpoint lib ord txIndex tx txid st output) := by
  unfold updateOutpoint
  dsimp only
  split
  · exact .pure st
  · apply Sync.Respects.bind (.ofExcept _)
    intro txOut
    split
    · exact .bind (.ofExcept _) fun _ => .pure _
    · apply Sync.Respects.bind (mapsOnly_modify fun _ _ _ => rfl)
      intro _
      exact .bind (mapsOnly_modify fun _ _ _ => rfl) fun _ => .pure _

theorem finishTransaction_mapsOnly (lib : Crates) (ord : HashOrder) (u : RuneUpdater)
    (txIndex : Nat) (tx : Transaction) (txid : Txid) (artifact : Option Artifact) (t : LotMap)
    (a : List LotMap) :
    IndexM.MapsOnly (finishTransaction lib ord u txIndex tx txid artifact t a) := by
  apply Sync.Respects.bind (.ofExcept _)
  intro x
  apply Sync.Respects.bind (.foldlM (fun st output => updateOutpoint_mapsOnly lib ord txIndex tx
    txid st output) _ _)
  intro st
  exact .bind (.ofExcept _) fun _ => .pure _

theorem indexRunes_mapsOnly (lib : Crates) (ord : HashOrder) (u : RuneUpdater) (txIndex : Nat)
    (tx : Transaction) (txid : Txid) : AsyncM.MapsOnly (u.indexRunes lib ord txIndex tx txid) := by
  apply Async.Respects.bind (.lift (.foldlM (fun st input => unallocatedInput_mapsOnly st input)
    _ _))
  intro x
  apply Async.Respects.bind (x := indexArtifact? lib x.2 txIndex tx txid x.1 (lib.decipher tx))
  · cases lib.decipher tx with
    | none => exact .pure _
    | some artifact => exact indexArtifact_mapsOnly lib x.2 txIndex tx txid artifact x.1
  · intro y
    exact .lift (finishTransaction_mapsOnly lib ord y.2.2 txIndex tx txid _ y.1 y.2.1)

theorem update_mapsOnly (ord : HashOrder) (u : RuneUpdater) : IndexM.MapsOnly (u.update ord) := by
  apply Sync.Respects.bind (.foldlM ?_ _ _)
  · intro record
    exact mapsOnly_modify fun _ _ _ => rfl
  · intro record e
    apply Sync.Respects.bind (mapsOnly_gets fun _ _ _ => rfl)
    intro entry
    apply Sync.Respects.bind (.ofExcept _)
    intro entry
    apply Sync.Respects.bind (.ofExcept _)
    intro burned
    exact .bind (mapsOnly_modify fun _ _ _ => rfl) fun _ => .pure _

end RuneUpdater

/-! ### Blocks -/

theorem indexTransactions_mapsOnly (lib : Crates) (ord : HashOrder)
    (l : List (Transaction × Txid)) (u : RuneUpdater) (i : Nat) :
    AsyncM.MapsOnly (indexTransactions lib ord u i l) := by
  induction l generalizing u i with
  | nil => exact .pure u
  | cons e rest ih => exact .bind (u.indexRunes_mapsOnly lib ord i e.1 e.2) fun u' => ih u' (i + 1)

theorem indexBlock_mapsOnly (lib : Crates) (ord : HashOrder) (network : BitcoinNetwork)
    (height : Nat) (b : BlockData) : AsyncM.MapsOnly (indexBlock lib ord network height b) := by
  apply Async.Respects.bind (x := liftM (initStatistics height))
  · apply Async.Respects.lift
    apply Sync.Respects.bind (mapsOnly_gets fun _ _ _ => rfl)
    intro runes
    apply Sync.Respects.bind (mapsOnly_gets fun _ _ _ => rfl)
    intro reserved
    apply Sync.Respects.bind (mapsOnly_modify fun _ _ _ => rfl)
    intro _
    exact .bind (mapsOnly_modify fun _ _ _ => rfl) fun _ => .pure _
  · intro runes
    apply Async.Respects.bind (indexTransactions_mapsOnly lib ord b.txdata _ 0)
    intro u
    apply Async.Respects.bind (.lift (u.update_mapsOnly ord))
    intro _
    exact .lift (mapsOnly_modify fun _ _ _ => rfl)

/-! ### Reorgs -/

namespace Reorg

theorem detectReorg_mapsOnly (lib : Crates) (network : BitcoinNetwork)
    (indexPrev : Option BlockHash) (prev : BlockHash) (height : Nat) :
    AsyncM.MapsOnly (detectReorg lib network indexPrev prev height) := by
  have hrules : DetectRules fun _ x => AsyncM.MapsOnly x :=
    { pure := fun a => .pure a
      bind := fun hx hf => .bind hx hf
      stored := fun _ _ => .lift (mapsOnly_gets fun _ _ _ => rfl)
      node := fun _ _ => .call _ }
  exact hrules.detectReorg lib network indexPrev prev height

/-- Setting a count of an entry. -/
theorem resetEntry_mapsOnly (id : RuneId) (f : RuneEntry → RuneEntry) :
    IndexM.MapsOnly (resetEntry id f) := by
  apply Sync.Respects.bind (mapsOnly_gets fun _ _ _ => rfl)
  intro entry
  exact .bind (.ofExcept _) fun entry => mapsOnly_modify fun _ _ _ => rfl

theorem undoRecord_mapsOnly (ord : HashOrder) (height : Nat) (record : ChangeRecord) :
    IndexM.MapsOnly (undoRecord ord height record) := by
  apply Sync.Respects.bind (mapsOnly_modify (foldl_controls (fun _ _ _ _ => rfl) _))
  intro _
  apply Sync.Respects.bind (mapsOnly_modify (foldl_controls (fun _ _ _ _ => rfl) _))
  intro _
  apply Sync.Respects.bind (.forM (f := resetBurned) ?_ _)
  · intro _
    apply Sync.Respects.bind (.forM (f := resetMints) ?_ _)
    · intro _
      exact mapsOnly_modify (foldl_controls (fun _ _ _ _ => rfl) _)
    · intro e
      exact resetEntry_mapsOnly e.1 fun entry => { entry with mints := e.2 }
  · intro e
    exact resetEntry_mapsOnly e.1 fun entry => { entry with burned := e.2 }

theorem rollbackHeight_mapsOnly (ord : HashOrder) (height : Nat) :
    IndexM.MapsOnly (rollbackHeight ord height) := by
  rw [rollbackHeight_eq]
  have hdrop : IndexM.MapsOnly (modify (dropHeight height)) := mapsOnly_modify fun _ _ _ => rfl
  apply Sync.Respects.bind (mapsOnly_gets fun _ _ _ => rfl)
  intro x
  cases x with
  | none => exact hdrop
  | some record => exact .bind (undoRecord_mapsOnly ord height record) fun _ => hdrop

theorem handleReorg_mapsOnly (ord : HashOrder) (height depth : Nat) :
    IndexM.MapsOnly (handleReorg ord height depth) :=
  .forM (fun k => rollbackHeight_mapsOnly ord k) _

theorem pruneChangeRecord_sameMaps (network : BitcoinNetwork) (height : Nat) {s s' : Store}
    (h : s.SameMaps s') :
    (pruneChangeRecord network height s).SameMaps (pruneChangeRecord network height s') := by
  obtain ⟨config, flag, rfl⟩ := h
  refine ⟨config, flag, ?_⟩
  unfold pruneChangeRecord
  split <;> rfl

end Reorg

theorem getBlock_mapsOnly (lib : Crates) (hash : BlockHash) :
    AsyncM.MapsOnly (getBlock lib hash) := by
  apply Async.Respects.bind (.call _)
  intro reply
  apply Async.Respects.bind (.lift (ofResult_mapsOnly _))
  intro block
  split
  · exact .lift (.fail _)
  · split
    · exact .pure _
    · exact .lift (.fail _)

/-- The callback up to the answer of `detect_reorg`. -/
theorem prepare_mapsOnly (lib : Crates) (network : BitcoinNetwork) :
    AsyncM.MapsOnly (prepare lib network) := by
  apply Async.Respects.bind (.lift (mapsOnly_gets fun _ _ _ => rfl))
  intro next
  refine .bind (.call _) fun reply => ?_
  split
  · apply Async.Respects.bind (.attempt (getBlock_mapsOnly lib _))
    intro block
    split
    · exact .bind (Reorg.detectReorg_mapsOnly lib network _ _ _) fun _ => .pure _
    · exact .pure _
  · exact .pure _
  · exact .pure _

end RunesIndexer
