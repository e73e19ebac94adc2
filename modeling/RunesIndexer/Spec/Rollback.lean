import RunesIndexer.Spec.Block

/-! # What reorg handling does

    When `detect_reorg` asks for a rollback, what `handle_reorg` does to headers,
    records and statistic rows, and a rule to carry a property down the heights
    that it rolls back.
-/

namespace RunesIndexer

open Resumption MonadicFold

namespace Reorg

/-! ### Detection -/

/-- Properties of code that the constructs of `detect_reorg` preserve. -/
structure DetectRules (P : (α : Type) → AsyncM α → Prop) : Prop where
  pure : ∀ {α : Type} (a : α), P α (pure a)
  bind : ∀ {α β : Type} {x : AsyncM α} {f : α → AsyncM β},
    P α x → (∀ a, P β (f a)) → P β (x >>= f)
  stored : ∀ lib height, P _ (liftM (gets (Store.memBlockHash lib height)))
  node : ∀ network height, P _ (getBlockHash network height)

namespace DetectRules

variable {P : (α : Type) → AsyncM α → Prop}

/-- By induction on the depths that are left. -/
theorem detectDepths (h : DetectRules P) (lib : Crates) (network : BitcoinNetwork) (height : Nat)
    (l : List Nat) : P _ (Reorg.detectDepths lib network height l) := by
  induction l with
  | nil => exact h.pure _
  | cons depth rest ih =>
    unfold Reorg.detectDepths
    split
    · exact h.pure _
    · refine h.bind (h.stored _ _) fun hash => ?_
      split
      · exact h.pure _
      · refine h.bind (h.node _ _) fun reply => ?_
        split
        · split
          · exact h.pure _
          · exact ih
        · exact h.pure _

theorem detectReorg (h : DetectRules P) (lib : Crates) (network : BitcoinNetwork)
    (indexPrev : Option BlockHash) (bitcoindPrev : BlockHash) (height : Nat) :
    P _ (Reorg.detectReorg lib network indexPrev bitcoindPrev height) := by
  unfold Reorg.detectReorg
  split
  · split
    · exact h.pure _
    · exact h.detectDepths _ _ _ _
  · exact h.pure _

end DetectRules

theorem detectReorg_readOnly (lib : Crates) (network : BitcoinNetwork)
    (indexPrev : Option BlockHash) (bitcoindPrev : BlockHash) (height : Nat) :
    (detectReorg lib network indexPrev bitcoindPrev height).ReadOnly := by
  have hrules : DetectRules fun _ x => Async.ReadOnly x :=
    { pure := fun a => .pure a
      bind := fun hx hf => .bind hx hf
      stored := fun _ _ => .gets _
      node := fun _ _ => .call _ }
  exact hrules.detectReorg lib network indexPrev bitcoindPrev height

theorem detectDepths_recoverable {lib : Crates} {network : BitcoinNetwork} {height : Nat}
    {l : List Nat} {ans : Answers} {s s' : Store} {height' depth : Nat}
    (h : Proc.Runs ans ((detectDepths lib network height l).run s)
      (.ok s' (.error (.recoverable height' depth)))) :
    height' = height ∧ depth ∈ l ∧ depth ≤ height ∧
      ∃ header, s.heightToBlockHeader.get? (height - depth) = some header := by
  induction l with
  | nil => cases Proc.runs_ok.mp h
  | cons d rest ih =>
    unfold detectDepths at h
    cases hsub : RuneUpdater.checkedSub height d with
    | none =>
      rw [hsub] at h
      cases Proc.runs_ok.mp h
    | some checkHeight =>
      rw [hsub] at h
      obtain ⟨s₁, hash, hget, h⟩ := Async.runs_liftM_bind_ok.mp h
      cases hget
      obtain ⟨hle, rfl⟩ : d ≤ height ∧ checkHeight = height - d := by
        unfold RuneUpdater.checkedSub at hsub
        split at hsub
        · next hle => exact ⟨hle, by simpa using hsub.symm⟩
        · cases hsub
      cases hhash : s.memBlockHash lib (height - d) with
      | none =>
        rw [hhash] at h
        cases Proc.runs_ok.mp h
      | some indexHash =>
        rw [hhash] at h
        obtain ⟨s₂, reply, hcall, h⟩ := Async.runs_bind_ok.mp h
        obtain ⟨_, -, hreply⟩ := Async.runs_call.mp hcall
        cases hreply
        -- a hash that is compared is that of a stored header
        have hheader : ∃ header, s.heightToBlockHeader.get? (height - d) = some header := by
          obtain ⟨header, hheader, -⟩ := Option.map_eq_some_iff.mp hhash
          exact ⟨header, hheader⟩
        split at h
        · split at h
          · cases Proc.runs_ok.mp h
            exact ⟨rfl, List.mem_cons_self, hle, hheader⟩
          · obtain ⟨h₁, h₂, h₃, h₄⟩ := ih h
            exact ⟨h₁, List.mem_cons_of_mem _ h₂, h₃, h₄⟩
        · cases Proc.runs_ok.mp h

/-- The rollback that `detect_reorg` asks for ends at a stored header. -/
theorem detectReorg_recoverable {lib : Crates} {network : BitcoinNetwork}
    {indexPrev : Option BlockHash} {bitcoindPrev : BlockHash} {height : Nat} {ans : Answers}
    {s s' : Store} {height' depth : Nat}
    (h : Proc.Runs ans ((detectReorg lib network indexPrev bitcoindPrev height).run s)
      (.ok s' (.error (.recoverable height' depth)))) :
    s' = s ∧ height' = height ∧ 1 ≤ depth ∧ depth ≤ height ∧
      ∃ header, s.heightToBlockHeader.get? (height - depth) = some header := by
  refine ⟨(detectReorg_readOnly _ _ _ _ _).ok h, ?_⟩
  unfold detectReorg at h
  split at h
  · split at h
    · cases Proc.runs_ok.mp h
    · obtain ⟨h₁, h₂, h₃, h₄⟩ := detectDepths_recoverable h
      have := (List.mem_range'_1.mp h₂).1
      exact ⟨h₁, this, h₃, h₄⟩
  · cases Proc.runs_ok.mp h

/-- It lets the block be indexed when there is no header or the last one matches. -/
theorem detectReorg_ok {lib : Crates} {network : BitcoinNetwork}
    {indexPrev : Option BlockHash} {bitcoindPrev : BlockHash} {height : Nat} {ans : Answers}
    {s s' : Store}
    (h : Proc.Runs ans ((detectReorg lib network indexPrev bitcoindPrev height).run s)
      (.ok s' (.ok ()))) :
    s' = s ∧ (indexPrev = none ∨ indexPrev = some bitcoindPrev) := by
  refine ⟨(detectReorg_readOnly _ _ _ _ _).ok h, ?_⟩
  -- the walk over the depths never ends well
  have hdepths : ∀ l : List Nat,
      ¬ Proc.Runs ans ((detectDepths lib network height l).run s) (.ok s' (.ok ())) := by
    intro l
    induction l with
    | nil => exact fun h => by cases Proc.runs_ok.mp h
    | cons d rest ih =>
      intro h
      unfold detectDepths at h
      split at h
      · cases Proc.runs_ok.mp h
      · obtain ⟨s₁, hash, hget, h⟩ := Async.runs_liftM_bind_ok.mp h
        cases hget
        split at h
        · cases Proc.runs_ok.mp h
        · obtain ⟨s₂, reply, hcall, h⟩ := Async.runs_bind_ok.mp h
          obtain ⟨_, -, hreply⟩ := Async.runs_call.mp hcall
          cases hreply
          split at h
          · split at h
            · cases Proc.runs_ok.mp h
            · exact ih h
          · cases Proc.runs_ok.mp h
  unfold detectReorg at h
  split at h
  · split at h
    · next heq => exact .inr (congrArg some heq)
    · exact absurd h (hdepths _)
  · exact .inl rfl

/-! ### Rolling back one height -/

/-- Remove what the maps by height hold at `height`. -/
def dropHeight (height : Nat) (s : Store) : Store :=
  (((s.memRemoveChangeRecord height).memRemoveStatisticRunes
    height).memRemoveStatisticReservedRunes height).memRemoveBlockHeader height

/-- A height is undone if it has a record, and dropped either way. -/
theorem rollbackHeight_eq (ord : HashOrder) (height : Nat) :
    rollbackHeight ord height = (do
      let found ← gets (Store.memGetChangeRecord height)
      found.elim (modify (dropHeight height)) fun record => do
        undoRecord ord height record
        modify (dropHeight height)) := by
  unfold rollbackHeight
  refine congrArg (bind _) (funext fun found => ?_)
  cases found with
  | none => rfl
  | some record => rfl

theorem rollbackHeight_eq_ok {ord : HashOrder} {height : Nat} {s s' : Store} :
    (rollbackHeight ord height).run s = .ok s' () ↔
      ∃ s₁, (s.heightToChangeRecord.get? height = none ∧ s₁ = s ∨
        ∃ record, s.heightToChangeRecord.get? height = some record ∧
          (undoRecord ord height record).run s = .ok s₁ ()) ∧ s' = dropHeight height s₁ := by
  rw [rollbackHeight_eq, Sync.bind_eq_ok]
  constructor
  · rintro ⟨s₀, found, hget, h⟩
    cases hget
    cases hrec : s.memGetChangeRecord height with
    | none =>
      rw [hrec] at h
      cases h
      exact ⟨s, .inl ⟨hrec, rfl⟩, rfl⟩
    | some record =>
      rw [hrec] at h
      obtain ⟨s₁, _, hundo, h⟩ := Sync.bind_eq_ok.mp h
      cases h
      exact ⟨s₁, .inr ⟨record, hrec, hundo⟩, rfl⟩
  · rintro ⟨s₁, ⟨hrec, rfl⟩ | ⟨record, hrec, hundo⟩, rfl⟩
    · refine ⟨s₁, none, congrArg _ hrec, rfl⟩
    · refine ⟨s, some record, congrArg _ hrec, ?_⟩
      exact Sync.bind_eq_ok.mpr ⟨s₁, (), hundo, rfl⟩

/-! ### Resetting counts -/

/-- The loop bodies over `burned` and `mints`: an entry that is there is changed by `f`. -/
def resetEntry (id : RuneId) (f : RuneEntry → RuneEntry) : IndexM Unit := do
  let entry ← unwrap (← gets (Store.memGetRuneIdToRuneEntry id))
  modify (Store.memInsertRuneIdToRuneEntry id (f entry))

theorem resetBurned_eq : resetBurned =
    fun e => resetEntry e.1 fun entry => { entry with burned := e.2 } := rfl

theorem resetMints_eq : resetMints =
    fun e => resetEntry e.1 fun entry => { entry with mints := e.2 } := rfl

theorem resetEntry_run (id : RuneId) (f : RuneEntry → RuneEntry) (s : Store) :
    (resetEntry id f).run s =
      match s.runeIdToRuneEntry.get? id with
      | none => .trap .unwrapFailed
      | some entry => .ok (s.memInsertRuneIdToRuneEntry id (f entry)) () := by
  unfold resetEntry gets modify
  rw [Sync.run_gets_bind]
  unfold Store.memGetRuneIdToRuneEntry
  cases s.runeIdToRuneEntry.get? id with
  | none => rfl
  | some entry => rfl

theorem resetEntry_eq_ok {id : RuneId} {f : RuneEntry → RuneEntry} {s s' : Store} :
    (resetEntry id f).run s = .ok s' () ↔
      ∃ entry, s.runeIdToRuneEntry.get? id = some entry ∧
        s' = s.memInsertRuneIdToRuneEntry id (f entry) := by
  rw [resetEntry_run]
  cases s.runeIdToRuneEntry.get? id with
  | none => simp
  | some entry => simp [eq_comm]

/-! ### The heights rolled back -/

theorem rolledBack_of_le_one {height depth : Nat} (h : depth ≤ 1) : rolledBack height depth = [] := by
  unfold rolledBack
  rw [show height - (height - depth + 1) = 0 by omega]
  rfl

/-- The highest one comes first. -/
theorem rolledBack_eq_cons {height depth : Nat} (h : 2 ≤ depth) (hle : depth ≤ height) :
    rolledBack height depth = (height - 1) :: rolledBack (height - 1) (depth - 1) := by
  unfold rolledBack
  rw [show height - 1 - (depth - 1) + 1 = height - depth + 1 by omega,
    show height - (height - depth + 1) = (height - 1 - (height - depth + 1)) + 1 by omega,
    List.range'_concat, List.reverse_append]
  simp only [List.reverse_cons, List.reverse_nil, List.nil_append, List.cons_append]
  congr 1
  omega

theorem mem_rolledBack {height depth k : Nat} (hle : depth ≤ height) :
    k ∈ rolledBack height depth ↔ height - depth < k ∧ k < height := by
  unfold rolledBack
  rw [List.mem_reverse, List.mem_range'_1]
  omega

/-- A property of the height to index next and the state goes down a rollback. -/
theorem handleReorg_invariant {ord : HashOrder} {P : Nat → Store → Prop} {height depth : Nat}
    (hdepth : 1 ≤ depth) (hle : depth ≤ height)
    (hstep : ∀ k s s', height - depth < k → k < height → P (k + 1) s →
      (rollbackHeight ord k).run s = .ok s' () → P k s')
    {s s' : Store} (h₀ : P height s) (h : (handleReorg ord height depth).run s = .ok s' ()) :
    P (height - (depth - 1)) s' := by
  unfold handleReorg at h
  induction depth generalizing height s with
  | zero => omega
  | succ d ih =>
    by_cases hd : d = 0
    · subst hd
      rw [rolledBack_of_le_one (by omega)] at h
      rw [sync_forM_nil.mp h]
      exact h₀
    · rw [rolledBack_eq_cons (by omega) hle] at h
      obtain ⟨s₁, h₁, h₂⟩ := sync_forM_cons.mp h
      have hP : P (height - 1) s₁ := by
        refine hstep (height - 1) s s₁ (by omega) (by omega) ?_ h₁
        rw [show height - 1 + 1 = height by omega]
        exact h₀
      rw [show height - (d + 1 - 1) = height - 1 - (d - 1) by omega]
      exact ih (by omega) (by omega)
        (fun k s s' h₁ h₂ => hstep k s s' (by omega) (by omega)) hP h₂

/-- The rollback returns when every height does, with the property at its end. -/
theorem handleReorg_total {ord : HashOrder} {P : Nat → Store → Prop} {height depth : Nat}
    (hdepth : 1 ≤ depth) (hle : depth ≤ height)
    (hstep : ∀ k s, height - depth < k → k < height → P (k + 1) s →
      ∃ s', (rollbackHeight ord k).run s = .ok s' () ∧ P k s')
    {s : Store} (h₀ : P height s) :
    ∃ s', (handleReorg ord height depth).run s = .ok s' () ∧ P (height - (depth - 1)) s' := by
  unfold handleReorg
  induction depth generalizing height s with
  | zero => omega
  | succ d ih =>
    by_cases hd : d = 0
    · subst hd
      rw [rolledBack_of_le_one (by omega)]
      exact ⟨s, sync_forM_nil.mpr rfl, h₀⟩
    · rw [rolledBack_eq_cons (by omega) hle]
      obtain ⟨s₁, h₁, hP⟩ := hstep (height - 1) s (by omega) (by omega)
        (by rw [show height - 1 + 1 = height by omega]; exact h₀)
      rw [show height - (d + 1 - 1) = height - 1 - (d - 1) by omega]
      obtain ⟨s', h₂, hP'⟩ : ∃ s', ((rolledBack (height - 1) d).forM (rollbackHeight ord)).run s₁ =
          .ok s' () ∧ P (height - 1 - (d - 1)) s' :=
        ih (by omega) (by omega) (fun k s h₁ h₂ => hstep k s (by omega) (by omega)) hP
      exact ⟨s', sync_forM_cons.mpr ⟨s₁, h₁, h₂⟩, hP'⟩

/-! ### Undoing a record leaves the maps by height alone -/

/-- The maps by height, the configuration and the flag are the same. -/
structure SameHeights (s s' : Store) : Prop where
  config : s'.config = s.config
  shuttingDown : s'.shuttingDown = s.shuttingDown
  headers : s'.heightToBlockHeader = s.heightToBlockHeader
  records : s'.heightToChangeRecord = s.heightToChangeRecord
  runeRows : s'.heightToStatisticRunes = s.heightToStatisticRunes
  reservedRows : s'.heightToStatisticReservedRunes = s.heightToStatisticReservedRunes

namespace SameHeights

theorem refl (s : Store) : SameHeights s s := ⟨rfl, rfl, rfl, rfl, rfl, rfl⟩

theorem trans {s₁ s₂ s₃ : Store} (h : SameHeights s₁ s₂) (h' : SameHeights s₂ s₃) :
    SameHeights s₁ s₃ :=
  ⟨h'.config.trans h.config, h'.shuttingDown.trans h.shuttingDown, h'.headers.trans h.headers,
    h'.records.trans h.records, h'.runeRows.trans h.runeRows,
    h'.reservedRows.trans h.reservedRows⟩

theorem foldl {α : Type} {f : Store → α → Store} (hf : ∀ s a, SameHeights s (f s a))
    (l : List α) (s : Store) : SameHeights s (l.foldl f s) := by
  induction l generalizing s with
  | nil => exact .refl s
  | cons a l ih => exact (hf s a).trans (ih (f s a))

theorem forM {α : Type} {f : α → IndexM Unit}
    (hf : ∀ a s s', (f a).run s = .ok s' () → SameHeights s s') {l : List α} {s s' : Store}
    (h : (l.forM f).run s = .ok s' ()) : SameHeights s s' := by
  induction l generalizing s with
  | nil => rw [sync_forM_nil.mp h]; exact .refl s
  | cons a l ih =>
    obtain ⟨s₁, h₁, h₂⟩ := sync_forM_cons.mp h
    exact (hf a s s₁ h₁).trans (ih h₂)

end SameHeights

/-- The parts of undoing a record: outpoints, then entries, then the added runes. -/
theorem undoRecord_eq_ok {ord : HashOrder} {height : Nat} {record : ChangeRecord}
    {s s' : Store} :
    (undoRecord ord height record).run s = .ok s' () ↔
      ∃ s₁ s₂, ((ord.iter (.recordBurned height) record.burned).forM resetBurned).run
          (record.addedOutpoints.foldl removeOutpoint
            (record.removedOutpoints.foldl restoreOutpoint s)) = .ok s₁ () ∧
        ((ord.iter (.recordMints height) record.mints).forM resetMints).run s₁ = .ok s₂ () ∧
        s' = record.addedRunes.foldl removeRune s₂ := by
  unfold undoRecord modify
  simp only [Sync.run_modify_bind, Sync.bind_eq_ok, Sync.run_modify, Result.ok.injEq, and_true]
  constructor
  · rintro ⟨s₁, ⟨⟩, h₁, s₂, ⟨⟩, h₂, rfl⟩
    exact ⟨s₁, s₂, h₁, h₂, rfl⟩
  · rintro ⟨s₁, s₂, h₁, h₂, rfl⟩
    exact ⟨s₁, (), h₁, s₂, (), h₂, rfl⟩

theorem undoRecord_sameHeights {ord : HashOrder} {height : Nat} {record : ChangeRecord}
    {s s' : Store} (h : (undoRecord ord height record).run s = .ok s' ()) : SameHeights s s' := by
  obtain ⟨s₁, s₂, h₁, h₂, rfl⟩ := undoRecord_eq_ok.mp h
  have hout : SameHeights s (record.addedOutpoints.foldl removeOutpoint
      (record.removedOutpoints.foldl restoreOutpoint s)) :=
    (SameHeights.foldl (f := restoreOutpoint) (fun _ _ => ⟨rfl, rfl, rfl, rfl, rfl, rfl⟩) _ s).trans
      (SameHeights.foldl (f := removeOutpoint) (fun _ _ => ⟨rfl, rfl, rfl, rfl, rfl, rfl⟩) _ _)
  refine ((hout.trans (SameHeights.forM ?_ h₁)).trans (SameHeights.forM ?_ h₂)).trans
    (SameHeights.foldl (f := removeRune) (fun _ _ => ⟨rfl, rfl, rfl, rfl, rfl, rfl⟩) _ _)
  · intro e s s' hrun
    obtain ⟨entry, -, rfl⟩ := resetEntry_eq_ok.mp (resetBurned_eq ▸ hrun)
    exact ⟨rfl, rfl, rfl, rfl, rfl, rfl⟩
  · intro e s s' hrun
    obtain ⟨entry, -, rfl⟩ := resetEntry_eq_ok.mp (resetMints_eq ▸ hrun)
    exact ⟨rfl, rfl, rfl, rfl, rfl, rfl⟩

end Reorg

end RunesIndexer
