import RunesIndexer.Lib.Frame
import RunesIndexer.Spec.Controls

/-! # What the indexer does not write

    The flag and the configuration belong to the controllers. No segment of the callback
    writes them, so they change in no message but a controller's, and what the callback
    reads of the flag at its end is what the flag then is.
-/

namespace RunesIndexer

open Resumption

/-- The part of the state that controllers write. -/
def Store.controls (s : Store) : Config × Bool := (s.config, s.shuttingDown)

/-- Code of the index that writes to the maps only. -/
abbrev IndexM.WritesMaps {α : Type} (x : IndexM α) : Prop := Sync.Leaves Store.controls x

abbrev AsyncM.WritesMaps {α : Type} (x : AsyncM α) : Prop :=
  Async.Leaves Store.controls (fun _ _ => True) x

/-- A fold of writes to the maps. -/
theorem controls_foldl {α : Type} {f : Store → α → Store}
    (h : ∀ s a, (f s a).controls = s.controls) (l : List α) (s : Store) :
    (l.foldl f s).controls = s.controls := by
  induction l generalizing s with
  | nil => rfl
  | cons a l ih =>
    rw [List.foldl_cons, ih]
    exact h s a

/-! ### One transaction -/

theorem ofResult_writesMaps {α : Type} (x : Except Error α) : IndexM.WritesMaps (ofResult x) := by
  cases x with
  | ok a => exact .pure a
  | error e => exact .fail e

namespace RuneUpdater

theorem unallocatedInput_writesMaps (st : LotMap × RuneUpdater) (input : TxIn) :
    IndexM.WritesMaps (unallocatedInput st input) := by
  apply Sync.Leaves.bind (.gets _)
  intro x
  cases x with
  | none => exact .pure st
  | some l =>
    refine .bind (.modify fun _ => rfl) fun _ => ?_
    apply Sync.Leaves.bind (.ofExcept _)
    intro t
    apply Sync.Leaves.bind (.gets _)
    intro height
    cases height with
    | none => exact .fail _
    | some height => exact .bind (.modify fun _ => rfl) fun _ => .pure _

theorem indexMint_writesMaps (u : RuneUpdater) (artifact : Artifact) (t : LotMap) :
    IndexM.WritesMaps (u.indexMint artifact t) := by
  have hmint : ∀ id, IndexM.WritesMaps (u.mint id) := by
    intro id
    apply Sync.Leaves.bind (.gets _)
    intro x
    cases x with
    | none => exact .pure _
    | some e =>
      dsimp only
      split
      · exact .pure _
      · exact .bind (.modify fun _ => rfl) fun _ => .pure _
  unfold indexMint
  split
  · exact .pure _
  · apply Sync.Leaves.bind (hmint _)
    intro x
    obtain ⟨amount, u'⟩ := x
    cases amount with
    | none => exact .pure _
    | some amount => exact .bind (.ofExcept _) fun _ => .pure _

theorem txCommitsToRune_writesMaps (lib : Crates) (u : RuneUpdater) (tx : Transaction)
    (rune : Rune) : AsyncM.WritesMaps (txCommitsToRune lib u tx rune) := by
  have hrules : CommitRules fun _ x => AsyncM.WritesMaps x :=
    { pure := fun _ => .pure fun _ => trivial
      bind := fun hx hf => .bind hx hf
      fail := fun e => .lift (.fail e)
      ofExcept := fun x => .ofExcept x
      transaction := fun _ => .bind (.call _) fun reply => .lift (ofResult_writesMaps reply)
      header := fun _ => .bind (.call _) fun reply => .lift (ofResult_writesMaps reply) }
  exact hrules.txCommitsToRune lib u tx rune

theorem etched_writesMaps (lib : Crates) (u : RuneUpdater) (txIndex : Nat) (tx : Transaction)
    (artifact : Artifact) : AsyncM.WritesMaps (etched lib u txIndex tx artifact) := by
  unfold etched
  split
  · exact .pure fun _ => trivial
  · apply Async.Leaves.bind (.lift (.gets _))
    intro taken
    split
    · exact .pure fun _ => trivial
    · apply Async.Leaves.bind (txCommitsToRune_writesMaps lib u tx _)
      intro commits
      split
      · exact .pure fun _ => trivial
      · exact .pure fun _ => trivial
  · apply Async.Leaves.bind (.lift (.gets _))
    intro n
    exact .bind (.lift (.modify fun _ => rfl)) fun _ => .pure fun _ => trivial

theorem createRuneEntry_writesMaps (u : RuneUpdater) (txid : Txid) (artifact : Artifact)
    (id : RuneId) (rune : Rune) :
    IndexM.WritesMaps (u.createRuneEntry txid artifact id rune) := by
  refine .bind (.modify fun _ => rfl) fun _ => ?_
  refine .bind (.modify fun _ => rfl) fun _ => ?_
  refine .bind (.modify fun _ => rfl) fun _ => ?_
  apply Sync.Leaves.bind (.ofExcept _)
  intro entry
  exact .bind (.modify fun _ => rfl) fun _ => .pure _

theorem indexArtifact_writesMaps (lib : Crates) (u : RuneUpdater) (txIndex : Nat)
    (tx : Transaction) (txid : Txid) (artifact : Artifact) (t : LotMap) :
    AsyncM.WritesMaps (indexArtifact lib u txIndex tx txid artifact t) := by
  apply Async.Leaves.bind (.lift (indexMint_writesMaps u artifact t))
  intro x
  apply Async.Leaves.bind (etched_writesMaps lib _ txIndex tx artifact)
  intro etched
  apply Async.Leaves.bind (.ofExcept _)
  intro y
  cases etched with
  | none => exact .pure fun _ => trivial
  | some pair =>
    apply Async.Leaves.bind (.lift (createRuneEntry_writesMaps _ txid artifact pair.1 pair.2))
    intro _
    exact .pure fun _ => trivial

theorem updateOutpoint_writesMaps (lib : Crates) (ord : HashOrder) (txIndex : Nat)
    (tx : Transaction) (txid : Txid) (st : LotMap × RuneUpdater) (output : LotMap × Nat) :
    IndexM.WritesMaps (updateOutpoint lib ord txIndex tx txid st output) := by
  unfold updateOutpoint
  dsimp only
  split
  · exact .pure st
  · apply Sync.Leaves.bind (.ofExcept _)
    intro txOut
    split
    · exact .bind (.ofExcept _) fun _ => .pure _
    · refine .bind (.modify fun _ => rfl) fun _ => ?_
      exact .bind (.modify fun _ => rfl) fun _ => .pure _

theorem indexRunes_writesMaps (lib : Crates) (ord : HashOrder) (u : RuneUpdater) (txIndex : Nat)
    (tx : Transaction) (txid : Txid) :
    AsyncM.WritesMaps (u.indexRunes lib ord txIndex tx txid) := by
  apply Async.Leaves.bind (.lift (.foldlM (fun st input => unallocatedInput_writesMaps st input)
    _ _))
  intro x
  apply Async.Leaves.bind (x := indexArtifact? lib x.2 txIndex tx txid x.1 (lib.decipher tx))
  · cases lib.decipher tx with
    | none => exact .pure fun _ => trivial
    | some artifact => exact indexArtifact_writesMaps lib x.2 txIndex tx txid artifact x.1
  · intro y
    apply Async.Leaves.lift
    apply Sync.Leaves.bind (.ofExcept _)
    intro z
    apply Sync.Leaves.bind (.foldlM (fun st output => updateOutpoint_writesMaps lib ord txIndex tx
      txid st output) _ _)
    intro st
    exact .bind (.ofExcept _) fun _ => .pure _

theorem update_writesMaps (ord : HashOrder) (u : RuneUpdater) :
    IndexM.WritesMaps (u.update ord) := by
  apply Sync.Leaves.bind (.foldlM ?_ _ _)
  · intro record
    exact .modify fun _ => rfl
  · intro record e
    apply Sync.Leaves.bind (.gets _)
    intro entry
    apply Sync.Leaves.bind (.ofExcept _)
    intro entry
    apply Sync.Leaves.bind (.ofExcept _)
    intro burned
    exact .bind (.modify fun _ => rfl) fun _ => .pure _

end RuneUpdater

/-! ### Blocks and reorgs -/

theorem indexBlock_writesMaps (lib : Crates) (ord : HashOrder) (network : BitcoinNetwork)
    (height : Nat) (b : BlockData) :
    AsyncM.WritesMaps (indexBlock lib ord network height b) := by
  have htransactions : ∀ (l : List (Transaction × Txid)) (u : RuneUpdater) (i : Nat),
      AsyncM.WritesMaps (indexTransactions lib ord u i l) := by
    intro l
    induction l with
    | nil => exact fun u i => .pure fun _ => trivial
    | cons e rest ih =>
      intro u i
      exact .bind (u.indexRunes_writesMaps lib ord i e.1 e.2) fun u' => ih u' (i + 1)
  apply Async.Leaves.bind (x := liftM (initStatistics height))
  · apply Async.Leaves.lift
    apply Sync.Leaves.bind (.gets _)
    intro runes
    apply Sync.Leaves.bind (.gets _)
    intro reserved
    refine .bind (.modify fun _ => rfl) fun _ => ?_
    exact .bind (.modify fun _ => rfl) fun _ => .pure _
  · intro runes
    apply Async.Leaves.bind (htransactions b.txdata _ 0)
    intro u
    apply Async.Leaves.bind (.lift (u.update_writesMaps ord))
    intro _
    exact .lift (.modify fun _ => rfl)

namespace Reorg

theorem detectReorg_writesMaps (lib : Crates) (network : BitcoinNetwork)
    (indexPrev : Option BlockHash) (prev : BlockHash) (height : Nat) :
    AsyncM.WritesMaps (detectReorg lib network indexPrev prev height) := by
  have hrules : DetectRules fun _ x => AsyncM.WritesMaps x :=
    { pure := fun _ => .pure fun _ => trivial
      bind := fun hx hf => .bind hx hf
      stored := fun _ _ => .lift (.gets _)
      node := fun _ _ => .call _ }
  exact hrules.detectReorg lib network indexPrev prev height

theorem handleReorg_writesMaps (ord : HashOrder) (height depth : Nat) :
    IndexM.WritesMaps (handleReorg ord height depth) := by
  -- setting a count of an entry
  have hreset : ∀ (id : RuneId) (f : RuneEntry → RuneEntry), IndexM.WritesMaps (resetEntry id f) :=
    fun id f => .bind (.gets _) fun _ => .bind (.ofExcept _) fun _ => .modify fun _ => rfl
  have hfold : ∀ {α : Type} {f : Store → α → Store} (l : List α),
      (∀ s a, (f s a).controls = s.controls) →
      IndexM.WritesMaps (modify fun s => l.foldl f s) :=
    fun l h => .modify fun s => controls_foldl h l s
  refine .forM (fun k => ?_) _
  rw [rollbackHeight_eq]
  have hdrop : IndexM.WritesMaps (modify (dropHeight k)) := .modify fun _ => rfl
  apply Sync.Leaves.bind (.gets _)
  intro x
  cases x with
  | none => exact hdrop
  | some record =>
    refine .bind ?_ fun _ => hdrop
    refine .bind (hfold _ fun _ _ => rfl) fun _ => ?_
    refine .bind (hfold _ fun _ _ => rfl) fun _ => ?_
    apply Sync.Leaves.bind (.forM (g := resetBurned)
      (fun e => hreset e.1 fun entry => { entry with burned := e.2 }) _)
    intro _
    apply Sync.Leaves.bind (.forM (g := resetMints)
      (fun e => hreset e.1 fun entry => { entry with mints := e.2 }) _)
    intro _
    exact hfold _ fun _ _ => rfl

theorem pruneChangeRecord_controls (network : BitcoinNetwork) (height : Nat) (s : Store) :
    (pruneChangeRecord network height s).controls = s.controls := by
  unfold pruneChangeRecord
  split <;> rfl

end Reorg

/-! ### The callback -/

/-- A callback does not arm its timer again where a stop has been requested. -/
def Heeds (s : Store) (flow : Flow) : Prop := s.shuttingDown = true → flow ≠ .rearm

theorem rearmUnlessStopped_heeds : Async.Leaves Store.controls Heeds rearmUnlessStopped := by
  intro s
  cases hflag : s.shuttingDown with
  | false => simp [rearmUnlessStopped, gets, Proc.Leaves, Result.toProc, Proc.bind, hflag, Heeds]
  | true => simp [rearmUnlessStopped, gets, Proc.Leaves, Result.toProc, Proc.bind, hflag, Heeds]

theorem getBlock_writesMaps (lib : Crates) (hash : BlockHash) :
    AsyncM.WritesMaps (getBlock lib hash) := by
  apply Async.Leaves.bind (.call _)
  intro reply
  apply Async.Leaves.bind (.lift (ofResult_writesMaps _))
  intro block
  split
  · exact .lift (.fail _)
  · split
    · exact .pure fun _ => trivial
    · exact .lift (.fail _)

theorem processBlock_heeds (lib : Crates) (ord : HashOrder) (network : BitcoinNetwork)
    (subscribers : List Nat) (height : Nat) (indexPrev : Option BlockHash) (hash : BlockHash)
    (block : BlockData) :
    Async.Leaves Store.controls Heeds
      (processBlock lib ord network subscribers height indexPrev hash block) := by
  have hnotify : ∀ l, AsyncM.WritesMaps (notifySubscribers height hash block l) := by
    intro l
    induction l with
    | nil => exact .pure fun _ => trivial
    | cons subscriber rest ih =>
      exact .bind (.bind (.call _) fun _ => .pure fun _ => trivial) fun _ => ih
  apply Async.Leaves.bind (Reorg.detectReorg_writesMaps lib network indexPrev _ height)
  intro reorg
  split
  · apply Async.Leaves.bind (.attempt (indexBlock_writesMaps lib ord network height block))
    intro indexed
    cases indexed with
    | error e => exact .pure fun _ _ => nofun
    | ok _ =>
      apply Async.Leaves.bind (.lift (.modify (Reorg.pruneChangeRecord_controls network height)))
      intro _
      exact .bind (hnotify subscribers) fun _ => rearmUnlessStopped_heeds
  · exact .bind (.lift (Reorg.handleReorg_writesMaps ord _ _)) fun _ => rearmUnlessStopped_heeds
  · exact .pure fun _ _ => nofun
  · exact rearmUnlessStopped_heeds

/-- No segment of the callback writes what controllers write, and its last one heeds the
    flag as it then is. -/
theorem updateIndexIteration_heeds (lib : Crates) (ord : HashOrder) (network : BitcoinNetwork)
    (subscribers : List Nat) :
    Async.Leaves Store.controls Heeds (updateIndexIteration lib ord network subscribers) := by
  apply Async.Leaves.bind (.lift (.gets _))
  intro next
  refine .bind (.call _) fun reply => ?_
  split
  · apply Async.Leaves.bind (.attempt (getBlock_writesMaps lib _))
    intro fetched
    cases fetched with
    | error e => exact rearmUnlessStopped_heeds
    | ok block => exact processBlock_heeds lib ord network subscribers _ _ _ block
  · exact rearmUnlessStopped_heeds
  · exact rearmUnlessStopped_heeds

end RunesIndexer
