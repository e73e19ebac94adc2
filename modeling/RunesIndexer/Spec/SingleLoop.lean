import RunesIndexer.Spec.Controls
import RunesIndexer.Spec.Schedule

/-! # A single loop

    If a controller calls `start` only while no loop is running, at most one callback is
    ever under way. Then `index_block` begins on top of the last stored header only, and the
    ledger is that of the held chain, each block of it applied once. It depends on the
    controllers: `start` neither waits for a loop to end nor looks whether there is one.
-/

namespace RunesIndexer

open Resumption

/-! ### The condition -/

/-- A controller calls `start` only while no timer is set, no callback waits for a reply and
    no `index_block` has been left unfinished. -/
def StartWhenIdle (trace : List Effect) (m : Machine) : Action → Prop
  | .start isController => isController = true →
      m.canister.timers = [] ∧ m.tasks = [] ∧ Complete trace
  | _ => True

/-- The block is one to follow the last stored header. -/
def Store.Extends (lib : Crates) (height : Nat) (block : BlockData) (s : Store) : Prop :=
  ∀ tip hash, s.memLatestBlock lib = some (tip, hash) →
    height = tip + 1 ∧ block.header.prevBlockhash = hash

/-- The callback is in `index_block`. -/
def Stage.IsIndexing : Stage → Prop
  | .indexing _ _ _ _ => True
  | _ => False

/-! ### What the callback prepares -/

/-- What is left to do fits the state in which the callback started. -/
def Prepared.Fits (lib : Crates) (network : BitcoinNetwork) (s : Store) : Prepared → Prop
  | .index height _ block => height = (s.nextBlock lib network).1 ∧
      ((s.nextBlock lib network).2 = none ∨
        (s.nextBlock lib network).2 = some block.header.prevBlockhash)
  | .rollback height depth => ∃ prev, Proc.Runs Answers.any
      ((Reorg.detectReorg lib network (s.nextBlock lib network).2 prev
        (s.nextBlock lib network).1).run s) (.ok s (.error (.recoverable height depth)))
  | .unrecoverable => True
  | .nothing => True

theorem prepare_runs {lib : Crates} {network : BitcoinNetwork} {s s' : Store} {p : Prepared}
    (h : Proc.Runs Answers.any ((prepare lib network).run s) (.ok s' p)) :
    s' = s ∧ p.Fits lib network s := by
  have hs' : s' = s := ((prepare_maintains (I := (· = s)) lib network s rfl).runs h).1
  refine ⟨hs', ?_⟩
  -- nothing is written on the way, so every part starts in `s`
  unfold prepare at h
  obtain ⟨s₁, next, hnext, h⟩ := Async.runs_liftM_bind_ok.mp h
  cases hnext
  obtain ⟨s₂, reply, hhash, h⟩ := Async.runs_bind_ok.mp h
  have hs₂ := (Async.ReadOnly.call _).ok hhash
  rcases reply with e | hash
  · cases Proc.runs_ok.mp h
    trivial
  · cases hash with
    | none =>
      cases Proc.runs_ok.mp h
      trivial
    | some hash =>
      obtain ⟨s₃, block, hblock, h⟩ := Async.runs_bind_ok.mp h
      rcases Async.runs_attempt.mp hblock with ⟨b, rfl, hrun⟩ | ⟨e, rfl, hrun⟩
      · have hs₃ := (getBlock_readOnly _ _).ok hrun
        rw [hs₃, hs₂] at h
        obtain ⟨s₄, reorg, hdetect, h⟩ := Async.runs_bind_ok.mp h
        have hs₄ := (Reorg.detectReorg_readOnly _ _ _ _ _).ok hdetect
        cases Proc.runs_ok.mp h
        rcases reorg with e | _
        · subst hs₄
          cases e with
          | recoverable height depth => exact ⟨_, hdetect⟩
          | unrecoverable => trivial
          | retry => trivial
        · exact ⟨rfl, (Reorg.detectReorg_ok hdetect).2⟩
      · cases Proc.runs_ok.mp h
        trivial

/-- The block that is prepared extends the chain, in any state with the same maps. -/
theorem Prepared.Fits.extends {lib : Crates} {network : BitcoinNetwork} {s s₀ : Store}
    {height : Nat} {hash : BlockHash} {block : BlockData}
    (h : (Prepared.index height hash block).Fits lib network s₀) (hs : s.SameMaps s₀) :
    s.Extends lib height block := by
  obtain ⟨config, flag, rfl⟩ := hs
  obtain ⟨hheight, hprev⟩ := h
  intro tip tipHash htip
  have hnext : Store.nextBlock lib network { s with config := config, shuttingDown := flag } =
      (tip + 1, some tipHash) := by
    unfold Store.nextBlock
    rw [show Store.memLatestBlock lib { s with config := config, shuttingDown := flag } =
      some (tip, tipHash) from htip]
  rw [hnext] at hheight hprev
  rcases hprev with hprev | hprev
  · cases hprev
  · exact ⟨hheight, (Option.some.inj hprev).symm⟩

namespace Reorg

theorem resetEntry_errorFree (id : RuneId) (f : RuneEntry → RuneEntry) :
    (resetEntry id f).ErrorFree :=
  .bind (.gets _) fun _ => .bind (.ofExcept _) fun _ => .modify _

theorem undoRecord_errorFree (ord : HashOrder) (height : Nat) (record : ChangeRecord) :
    (undoRecord ord height record).ErrorFree := by
  refine .bind (.modify _) fun _ => .bind (.modify _) fun _ => ?_
  refine .bind (.forM (f := resetBurned) (fun e => ?_) _) fun _ => ?_
  · exact resetEntry_errorFree e.1 fun entry => { entry with burned := e.2 }
  · refine .bind (.forM (f := resetMints) (fun e => ?_) _) fun _ => .modify _
    exact resetEntry_errorFree e.1 fun entry => { entry with mints := e.2 }

/-- A rollback may trap, but it has no error. -/
theorem handleReorg_errorFree (ord : HashOrder) (height depth : Nat) :
    (handleReorg ord height depth).ErrorFree := by
  apply Sync.ErrorFree.forM
  intro k
  rw [rollbackHeight_eq]
  apply Sync.ErrorFree.bind (.gets _)
  intro record
  cases record with
  | none => exact .modify _
  | some record => exact .bind (undoRecord_errorFree ord k record) fun _ => .modify _

end Reorg

/-! ### A single loop -/

/-- The maps are those of a run that holds the blocks of the trace, and no `index_block` is
    under way. -/
structure AtBoundaryOf (lib : Crates) (network : BitcoinNetwork) (trace : List Effect)
    (s₀ s : Store) : Prop where
  complete : Complete trace
  run : Run lib network (fun _ => Answers.any) (fun _ => True) (held trace) s₀
  same : s.SameMaps s₀

def AtBoundary (lib : Crates) (network : BitcoinNetwork) (trace : List Effect) (s : Store) : Prop :=
  ∃ s₀, AtBoundaryOf lib network trace s₀ s

/-- Each block of the held chain has been applied once, in order, from the empty index on;
    besides them at most the next block has been begun, once. -/
inductive AppliedOnce (lib : Crates) (network : BitcoinNetwork) (trace : List Effect)
    (s : Store) : Prop
  | boundary (h : AtBoundary lib network trace s)
  | within {s₀ : Store} {ord : HashOrder} {block : BlockData} {x : Stop Error Store}
      (begun : trace.countP Effect.isBegun = trace.countP Effect.isApplied + 1)
      (run : Run lib network (fun _ => Answers.any) (fun _ => True) (held trace) s₀)
      (stopped : Proc.Stops Answers.any
        ((indexBlock lib ord network (s₀.nextBlock lib network).1 block).run s₀) x)
      (same : s.SameMaps x.state)

section

variable {lib : Crates} {network : BitcoinNetwork} {trace : List Effect} {ord : HashOrder}
  {timer : Timer} {s t : Store}

theorem AtBoundary.moved (h : AtBoundary lib network trace s) (ht : t.SameMaps s) :
    AtBoundary lib network trace t := by
  obtain ⟨s₀, hs⟩ := h
  exact ⟨s₀, hs.complete, hs.run, Store.sameMaps_equivalence.trans ht hs.same⟩

theorem AppliedOnce.moved (h : AppliedOnce lib network trace s) (ht : t.SameMaps s) :
    AppliedOnce lib network trace t := by
  cases h with
  | boundary h => exact .boundary (h.moved ht)
  | within begun run stopped same =>
    exact .within begun run stopped (Store.sameMaps_equivalence.trans ht same)

theorem AppliedOnce.of_complete (h : AppliedOnce lib network trace s) (hc : Complete trace) :
    AtBoundary lib network trace s := by
  cases h with
  | boundary h => exact h
  | within begun _ _ _ =>
    unfold Complete at hc
    omega

/-- Where a callback is, and the undisturbed execution it follows. -/
def Stage.Fits (lib : Crates) (network : BitcoinNetwork) (trace : List Effect) (ord : HashOrder)
    (s : Store) : Stage → Prop
  | .preparing w => ∃ s₀, AtBoundaryOf lib network trace s₀ s ∧
      Proc.Follows Store.SameMaps Answers.any ((prepare lib network).run s₀) (w.proc s)
  | .indexing height _ block w =>
    trace.countP Effect.isBegun = trace.countP Effect.isApplied + 1 ∧
      ∃ s₀, Run lib network (fun _ => Answers.any) (fun _ => True) (held trace) s₀ ∧
        height = (s₀.nextBlock lib network).1 ∧
        Proc.Follows Store.SameMaps Answers.any
          ((indexBlock lib ord network height block).run s₀) (w.proc s)
  | .finishing w => (w.proc s).Maintains (AtBoundary lib network trace) fun _ => True

theorem Stage.Fits.appliedOnce {stage : Stage} (h : stage.Fits lib network trace ord s) :
    AppliedOnce lib network trace s := by
  cases stage with
  | preparing w =>
    obtain ⟨s₀, hs, -⟩ := h
    exact .boundary ⟨s₀, hs⟩
  | indexing height hash block w =>
    obtain ⟨hcount, s₀, hrun, rfl, hfollows⟩ := h
    obtain ⟨s', hs', hawaits⟩ := hfollows.awaits
    exact .within (x := .waiting s') hcount hrun hawaits hs'
  | finishing w => exact .boundary h.1

/-- A controller may change the flag and the configuration meanwhile. -/
theorem Stage.Fits.moved {stage : Stage} (h : stage.Fits lib network trace ord s)
    (ht : t.SameMaps s) : stage.Fits lib network trace ord t := by
  cases stage with
  | preparing w =>
    obtain ⟨s₀, hs, hfollows⟩ := h
    have ht₀ := Store.sameMaps_equivalence.trans ht hs.same
    exact ⟨s₀, ⟨hs.complete, hs.run, ht₀⟩, hfollows.moved Store.sameMaps_equivalence ht⟩
  | indexing height hash block w =>
    obtain ⟨hcount, s₀, hrun, hheight, hfollows⟩ := h
    exact ⟨hcount, s₀, hrun, hheight, hfollows.moved Store.sameMaps_equivalence ht⟩
  | finishing w => exact ⟨h.1.moved ht, h.2⟩

/-- What a segment leaves. -/
def Ending.Fits (lib : Crates) (network : BitcoinNetwork) (trace : List Effect) (ord : HashOrder) :
    Ending → Prop
  | .waits s stage => stage.Fits lib network trace ord s
  | .ended s flow => AppliedOnce lib network trace s ∧
      (flow = .rearm → AtBoundary lib network trace s)
  | .failed s _ => AppliedOnce lib network trace s
  | .trapped _ => True

theorem runFinishing_fits {p : IndexProc Flow}
    (h : p.Maintains (AtBoundary lib network trace) fun _ => True) :
    (runFinishing p).Fits lib network trace ord := by
  cases p with
  | ok s flow => exact ⟨.boundary h.1, fun _ => h.1⟩
  | err s e => exact .boundary h
  | trap p => trivial
  | await s q k => exact h

/-- A segment of `index_block` on top of the held chain. -/
theorem runIndexing_fits (htimer : timer.network = network) {height : Nat} (hash : BlockHash)
    {block : BlockData} {s₀ : Store} {p : IndexProc Unit}
    (hcount : trace.countP Effect.isBegun = trace.countP Effect.isApplied + 1)
    (hrun : Run lib network (fun _ => Answers.any) (fun _ => True) (held trace) s₀)
    (hheight : height = (s₀.nextBlock lib network).1)
    (h : Proc.Follows Store.SameMaps Answers.any
      ((indexBlock lib ord network height block).run s₀) p) :
    (runIndexing timer height hash block p).ending.Fits lib network
      (trace ++ (runIndexing timer height hash block p).effects) ord := by
  subst hheight
  cases p with
  | ok s _ =>
    obtain ⟨s', hs', hindexed⟩ := h.ok
    have hstep := hrun.index trivial hindexed
    -- the flag is not read before the block is pruned
    have hboundary : AtBoundary lib network (trace ++ [.applied block])
        (Reorg.pruneChangeRecord network (s₀.nextBlock lib network).1 s) := by
      refine ⟨_, ?_, by rw [held_append]; exact hstep, Reorg.pruneChangeRecord_sameMaps _ _ hs'⟩
      simp [Complete, Effect.isBegun, Effect.isApplied, hcount]
    apply runFinishing_fits
    rw [← htimer] at hboundary ⊢
    have hrest := Async.Maintains.bind (S := fun _ : Flow => True)
      (notifySubscribers_maintains (I := AtBoundary lib timer.network (trace ++ [.applied block]))
        (s₀.nextBlock lib timer.network).1 hash block timer.subscribers)
      fun _ _ => rearmUnlessStopped_maintains
    exact hrest _ hboundary
  | err s e =>
    obtain ⟨s', hs', hfailed⟩ := h.err
    simp only [runIndexing, List.append_nil]
    exact ⟨.within (x := .failed s' e) hcount hrun hfailed hs', fun hflow => by cases hflow⟩
  | trap p => trivial
  | await s q k =>
    simp only [runIndexing, List.append_nil]
    exact ⟨hcount, s₀, hrun, rfl, h⟩

/-- A segment before `index_block`. -/
theorem runPreparing_fits (htimer : timer.network = network) {s₀ : Store}
    {p : IndexProc Prepared} (hcomplete : Complete trace)
    (hrun : Run lib network (fun _ => Answers.any) (fun _ => True) (held trace) s₀)
    (h : Proc.Follows Store.SameMaps Answers.any ((prepare lib network).run s₀) p) :
    (runPreparing lib ord timer p).ending.Fits lib network
      (trace ++ (runPreparing lib ord timer p).effects) ord := by
  have hreadOnly := prepare_maintains (I := (· = s₀)) lib network s₀ rfl
  cases p with
  | ok s x =>
    obtain ⟨s', hs', hprepared⟩ := h.ok
    obtain ⟨rfl, hfits⟩ := prepare_runs hprepared
    have hboundary : AtBoundary lib network trace s := ⟨_, hcomplete, hrun, hs'⟩
    cases x with
    | index height hash block =>
      have hcount : (trace ++ [Effect.begun height block s]).countP Effect.isBegun =
          (trace ++ [Effect.begun height block s]).countP Effect.isApplied + 1 := by
        simpa [Complete, Effect.isBegun, Effect.isApplied] using hcomplete
      -- `index_block` begins in the same segment, in a state with the maps of `s₀`
      have hindexing := runIndexing_fits htimer hash hcount
        (by rw [held_append]; exact hrun) hfits.1
        (.start (indexBlock_mapsOnly lib ord network height block) hs')
      rw [List.append_assoc, ← htimer] at hindexing
      rw [← htimer]
      exact hindexing
    | rollback height depth =>
      obtain ⟨prev, hdetected⟩ := hfits
      apply runFinishing_fits
      show Proc.Maintains _ _ (Proc.bind ((Reorg.handleReorg ord height depth).run s).toProc _)
      cases hresult : (Reorg.handleReorg ord height depth).run s with
      | ok t _ =>
        -- the undisturbed execution undoes the same blocks
        obtain ⟨t', hundone, ht'⟩ := (Reorg.handleReorg_mapsOnly ord height depth).ok hs' hresult
        have hundone' : AtBoundary lib network (trace ++ [.undone depth]) t := by
          refine ⟨t', ?_, by rw [held_append]; exact hrun.reorg hdetected hundone, ht'⟩
          simpa [Complete, Effect.isBegun, Effect.isApplied] using hcomplete
        exact rearmUnlessStopped_maintains t hundone'
      | err t e => exact absurd hresult (Reorg.handleReorg_errorFree ord height depth s t e)
      | trap p => trivial
    | unrecoverable =>
      simp only [runPreparing, List.append_nil]
      exact ⟨.boundary hboundary, fun _ => hboundary⟩
    | nothing =>
      simp only [runPreparing, List.append_nil]
      exact runFinishing_fits (rearmUnlessStopped_maintains s hboundary)
  | err s e =>
    obtain ⟨s', hs', hfailed⟩ := h.err
    obtain rfl : s' = s₀ := hreadOnly.runs hfailed
    simp only [runPreparing, List.append_nil]
    exact .boundary ⟨_, hcomplete, hrun, hs'⟩
  | trap p => trivial
  | await s q k =>
    obtain ⟨s', hs', hawaits⟩ := h.awaits
    obtain rfl : s' = s₀ := hreadOnly.awaits hawaits
    simp only [runPreparing, List.append_nil]
    exact ⟨_, ⟨hcomplete, hrun, hs'⟩, h⟩

theorem Stage.Fits.reply (htimer : timer.network = network) {stage : Stage}
    (h : stage.Fits lib network trace ord s) (answers : (q : Call) → Reply q) :
    (stage.reply lib ord timer answers s).ending.Fits lib network
      (trace ++ (stage.reply lib ord timer answers s).effects) ord := by
  cases stage with
  | preparing w =>
    obtain ⟨s₀, hs, hfollows⟩ := h
    exact runPreparing_fits htimer hs.complete hs.run (hfollows.resume trivial)
  | indexing height hash block w =>
    obtain ⟨hcount, s₀, hrun, hheight, hfollows⟩ := h
    exact runIndexing_fits htimer hash hcount hrun hheight (hfollows.resume trivial)
  | finishing w =>
    simp only [Stage.reply, List.append_nil]
    exact runFinishing_fits (h.2 _ s h.1)

end

/-- At most one timer or callback there is, and where it is. -/
inductive SingleLoop (lib : Crates) (network : BitcoinNetwork) (trace : List Effect) :
    Machine → Prop
  | idle {c : Canister} (timers : c.timers = []) : SingleLoop lib network trace ⟨c, []⟩
  | armed {c : Canister} {timer : Timer} (timers : c.timers = [timer])
      (boundary : AtBoundary lib network trace c.store) : SingleLoop lib network trace ⟨c, []⟩
  | waiting {c : Canister} {task : Task} (timers : c.timers = [])
      (fits : task.stage.Fits lib network trace task.ord c.store) :
      SingleLoop lib network trace ⟨c, [task]⟩

namespace SingleLoop

variable {lib : Crates} {network : BitcoinNetwork} {trace : List Effect} {m : Machine} {i : Nat}

/-- A timer that may fire is the only one, and no callback waits. -/
theorem of_timer (h : SingleLoop lib network trace m) {timer : Timer}
    (htimer : m.canister.timers[i]? = some timer) :
    i = 0 ∧ m.canister.timers = [timer] ∧ m.tasks = [] ∧
      AtBoundary lib network trace m.canister.store := by
  cases h with
  | idle timers =>
    rw [timers] at htimer
    cases htimer
  | armed timers boundary =>
    rw [timers] at htimer
    obtain ⟨hi, rfl⟩ := List.getElem?_eq_some_iff.mp htimer
    rw [List.length_singleton, Nat.lt_one_iff] at hi
    subst hi
    exact ⟨rfl, timers, rfl, boundary⟩
  | waiting timers fits =>
    rw [timers] at htimer
    cases htimer

/-- A callback that may get a reply is the only one, and no timer is set. -/
theorem of_task (h : SingleLoop lib network trace m) {task : Task}
    (htask : m.tasks[i]? = some task) :
    i = 0 ∧ m.canister.timers = [] ∧ m.tasks = [task] ∧
      task.stage.Fits lib network trace task.ord m.canister.store := by
  cases h with
  | idle timers => cases htask
  | armed timers boundary => cases htask
  | waiting timers fits =>
    obtain ⟨hi, rfl⟩ := List.getElem?_eq_some_iff.mp htask
    rw [List.length_singleton, Nat.lt_one_iff] at hi
    subst hi
    exact ⟨rfl, timers, rfl, fits⟩

end SingleLoop

/-- What the messages of a single loop keep. -/
structure LoopState (lib : Crates) (network : BitcoinNetwork) (trace : List Effect)
    (m : Machine) : Prop where
  applied : AppliedOnce lib network trace m.canister.store
  loop : SingleLoop lib network trace m

namespace LoopState

variable {lib : Crates} {network : BitcoinNetwork} {trace : List Effect} {m : Machine}

/-- A change of the flag or of the configuration. -/
theorem controls (h : LoopState lib network trace m) {s : Store}
    (hs : s.SameMaps m.canister.store) :
    LoopState lib network trace { m with canister := { m.canister with store := s } } := by
  obtain ⟨happlied, hloop⟩ := h
  cases hloop with
  | idle timers => exact ⟨happlied.moved hs, .idle timers⟩
  | armed timers boundary => exact ⟨happlied.moved hs, .armed timers (boundary.moved hs)⟩
  | waiting timers fits => exact ⟨happlied.moved hs, .waiting timers (fits.moved hs)⟩

/-- The end of a segment of the only callback. -/
theorem commit {c : Canister} {timer : Timer} {ord : HashOrder} {segment : AtomicSegment}
    (timers : c.timers = []) (happlied : AppliedOnce lib network trace c.store)
    (hfits : segment.ending.Fits lib network (trace ++ segment.effects) ord) :
    LoopState lib network (trace ++ segment.committed)
      (Machine.commit ⟨c, []⟩ timer ord segment.ending) := by
  unfold AtomicSegment.committed
  cases hending : segment.ending with
  | waits s stage =>
    rw [hending] at hfits
    have hloop : SingleLoop lib network (trace ++ segment.effects)
        ⟨{ c with store := s }, [⟨timer, ord, stage⟩]⟩ := .waiting timers hfits
    exact ⟨hfits.appliedOnce, hloop⟩
  | ended s flow =>
    rw [hending] at hfits
    unfold Machine.commit
    dsimp only
    split
    · next hflow =>
      -- no timer was left, so the one that is set again is the only one
      have hrearmed : c.timers ++ [⟨timer.network, timer.subscribers⟩] = [timer] := by
        rw [timers]
        rfl
      have hboundary := hfits.2 hflow
      exact ⟨.boundary hboundary, .armed hrearmed hboundary⟩
    · exact ⟨hfits.1, .idle timers⟩
  | failed s e =>
    rw [hending] at hfits
    exact ⟨hfits, .idle timers⟩
  | trapped p =>
    rw [List.append_nil]
    exact ⟨happlied, .idle timers⟩

/-- The first segment of a callback, when its timer was the only one. -/
theorem fire {c : Canister} {timer : Timer} (hnetwork : timer.network = network)
    (boundary : AtBoundary lib network trace c.store) (ord : HashOrder) :
    (runPreparing lib ord timer ((prepare lib timer.network).run c.store)).ending.Fits lib network
      (trace ++ (runPreparing lib ord timer ((prepare lib timer.network).run c.store)).effects)
      ord := by
  obtain ⟨s₀, hs⟩ := boundary
  refine runPreparing_fits hnetwork hs.complete hs.run ?_
  rw [hnetwork]
  exact .start (prepare_mapsOnly lib network) hs.same

theorem step (h : LoopState lib network trace m) (hfor : m.WorksFor lib network) {a : Action}
    (hmay : StartWhenIdle trace m a) :
    LoopState lib network (trace ++ m.effects lib a) (m.step lib a) := by
  cases a with
  | start isController =>
    rw [show m.effects lib (.start isController) = [] from rfl, List.append_nil]
    cases isController with
    | false => exact h
    | true =>
      -- by the condition nothing is under way, and nothing is left unfinished
      obtain ⟨htimers, htasks, hcomplete⟩ := hmay rfl
      obtain ⟨c, tasks⟩ := m
      obtain rfl : tasks = [] := htasks
      have hcancel : c.store.cancelShutdown.SameMaps c.store :=
        Store.sameMaps_equivalence.symm ⟨c.store.config, false, rfl⟩
      have hboundary := (h.applied.of_complete hcomplete).moved hcancel
      have harmed : c.timers ++ [⟨c.store.config.network, c.store.config.subscribers⟩] =
          [⟨c.store.config.network, c.store.config.subscribers⟩] := by
        rw [show c.timers = [] from htimers]
        rfl
      exact ⟨.boundary hboundary, .armed harmed hboundary⟩
  | stop isController =>
    rw [show m.effects lib (.stop isController) = [] from rfl, List.append_nil]
    cases isController with
    | false => exact h
    | true =>
      exact h.controls (Store.sameMaps_equivalence.symm ⟨m.canister.store.config, true, rfl⟩)
  | setBitcoinRpcUrl isController url =>
    rw [show m.effects lib (.setBitcoinRpcUrl isController url) = [] from rfl, List.append_nil]
    cases isController with
    | false => exact h
    | true =>
      exact h.controls (Store.sameMaps_equivalence.symm
        ⟨_, m.canister.store.shuttingDown, rfl⟩)
  | fire i ord =>
    cases htimer : m.canister.timers[i]? with
    | none =>
      unfold Machine.effects Machine.segment Machine.step
      simp only [htimer, Option.map_none, List.append_nil]
      exact h
    | some timer =>
      obtain ⟨c, tasks⟩ := m
      -- a timer fires: it was the only one, and no callback waits
      obtain ⟨rfl, htimers, rfl, hboundary⟩ := h.loop.of_timer htimer
      have hnetwork := hfor.canister.timers timer (List.mem_of_getElem? htimer)
      have hrest : c.timers.eraseIdx 0 = [] := by
        rw [show c.timers = [timer] from htimers]
        rfl
      unfold Machine.effects Machine.segment Machine.step
      simp only [htimer, Option.map_some, hrest]
      exact commit rfl h.applied (fire hnetwork hboundary ord)
  | reply i answers =>
    cases htask : m.tasks[i]? with
    | none =>
      unfold Machine.effects Machine.segment Machine.step
      simp only [htask, Option.map_none, List.append_nil]
      exact h
    | some task =>
      obtain ⟨c, tasks⟩ := m
      -- a reply arrives: the callback that gets it is the only one
      obtain ⟨rfl, htimers, rfl, hfits⟩ := h.loop.of_task htask
      have hnetwork := hfor.timers task List.mem_cons_self
      unfold Machine.effects Machine.segment Machine.step
      simp only [List.getElem?_cons_zero, Option.map_some, List.eraseIdx_cons_zero]
      exact commit htimers h.applied (hfits.reply hnetwork answers)

end LoopState

/-! ### Where `index_block` begins -/

section

variable {lib : Crates} {network : BitcoinNetwork} {trace : List Effect} {ord : HashOrder}
  {timer : Timer} {height : Nat} {block : BlockData} {s : Store}

/-- Once it has begun, `index_block` does not begin another one. -/
theorem not_begun_runIndexing {height' : Nat} {hash : BlockHash} {block' : BlockData}
    {p : IndexProc Unit} :
    .begun height block s ∉ (runIndexing timer height' hash block' p).effects := by
  cases p <;> simp [runIndexing]

/-- It begins where the callback has prepared it. -/
theorem runPreparing_begun {s₀ : Store} {p : IndexProc Prepared}
    (h : Proc.Follows Store.SameMaps Answers.any ((prepare lib network).run s₀) p)
    (hbegun : .begun height block s ∈ (runPreparing lib ord timer p).effects) :
    s.SameMaps s₀ ∧ s.Extends lib height block := by
  cases p with
  | ok t x =>
    obtain ⟨t', ht', hprepared⟩ := h.ok
    obtain ⟨rfl, hfits⟩ := prepare_runs hprepared
    cases x with
    | index height' hash block' =>
      rcases List.mem_cons.mp hbegun with hbegun | hbegun
      · cases hbegun
        exact ⟨ht', hfits.extends ht'⟩
      · exact absurd hbegun not_begun_runIndexing
    | rollback height' depth => simp [runPreparing] at hbegun
    | unrecoverable => simp [runPreparing] at hbegun
    | nothing => simp [runPreparing] at hbegun
  | err t e => simp [runPreparing] at hbegun
  | trap p => simp [runPreparing] at hbegun
  | await t q k => simp [runPreparing] at hbegun

/-- In a single loop `index_block` begins on top of the held chain, while no other one is in
    progress. -/
theorem LoopState.begins {m : Machine} (h : LoopState lib network trace m)
    (hfor : m.WorksFor lib network) {a : Action} {segment : AtomicSegment}
    (hsegment : m.segment lib a = some segment)
    (hbegun : .begun height block s ∈ segment.effects) :
    s.Extends lib height block ∧ (∀ task ∈ m.tasks, ¬ task.stage.IsIndexing) ∧
      AtBoundary lib network trace s := by
  cases a with
  | start isController => cases hsegment
  | stop isController => cases hsegment
  | setBitcoinRpcUrl isController url => cases hsegment
  | fire i ord =>
    obtain ⟨timer, htimer, rfl⟩ := Option.map_eq_some_iff.mp hsegment
    obtain ⟨-, -, htasks, s₀, hs⟩ := h.loop.of_timer htimer
    have hfollows : Proc.Follows Store.SameMaps Answers.any ((prepare lib network).run s₀)
        ((prepare lib network).run m.canister.store) :=
      .start (prepare_mapsOnly lib network) hs.same
    rw [← hfor.canister.timers timer (List.mem_of_getElem? htimer)] at hfollows
    obtain ⟨hsame, hextends⟩ := runPreparing_begun hfollows hbegun
    refine ⟨hextends, ?_, s₀, hs.complete, hs.run, hsame⟩
    intro task htask
    rw [htasks] at htask
    cases htask
  | reply i answers =>
    obtain ⟨task, htask, rfl⟩ := Option.map_eq_some_iff.mp hsegment
    obtain ⟨-, -, htasks, hfits⟩ := h.loop.of_task htask
    obtain ⟨timer, ord, stage⟩ := task
    cases stage with
    | preparing w =>
      obtain ⟨s₀, hs, hfollows⟩ := hfits
      -- the callback that gets the reply is the only one, and it is not in `index_block` yet
      obtain ⟨hsame, hextends⟩ := runPreparing_begun (hfollows.resume trivial) hbegun
      refine ⟨hextends, ?_, s₀, hs.complete, hs.run, hsame⟩
      intro task htask
      rw [htasks, List.mem_singleton] at htask
      subst htask
      exact fun h => h
    | indexing height' hash block' w => exact absurd hbegun not_begun_runIndexing
    | finishing w => exact absurd hbegun List.not_mem_nil

end

theorem Scheduled.loopState {lib : Crates} {network : BitcoinNetwork} {trace : List Effect}
    {m : Machine} (h : Scheduled lib network StartWhenIdle trace m) :
    LoopState lib network trace m := by
  induction h with
  | @init config c hnetwork installed =>
    cases installed
    have hempty : AtBoundary lib network [] ((Store.empty Config.default).memSetConfig config) :=
      ⟨_, rfl, .init Config.default, Config.default, false, rfl⟩
    exact ⟨.boundary hempty, .idle rfl⟩
  | step a run allowed ih => exact ih.step run.worksFor allowed

/-- When `start` is only called while nothing is under way and nothing is left unfinished,
    then whatever the order of messages: each block of the held chain has been applied to the
    ledger exactly once, and `index_block` begins only on top of the last stored header and
    while no other one is in progress. -/
theorem Scheduled.applied_once {lib : Crates} {network : BitcoinNetwork} {trace : List Effect}
    {m : Machine} (h : Scheduled lib network StartWhenIdle trace m) :
    AppliedOnce lib network trace m.canister.store ∧
    ∀ a segment height block s, m.segment lib a = some segment →
      .begun height block s ∈ segment.effects →
      s.Extends lib height block ∧ (∀ task ∈ m.tasks, ¬ task.stage.IsIndexing) ∧
        AtBoundary lib network trace s :=
  ⟨h.loopState.applied, fun _ _ _ _ _ hsegment hbegun =>
    h.loopState.begins h.worksFor hsegment hbegun⟩

/-- Execute messages one after another. -/
def Machine.perform (lib : Crates) (x : List Effect × Machine) (actions : List Action) :
    List Effect × Machine :=
  actions.foldl (fun x a => (x.1 ++ x.2.effects lib a, x.2.step lib a)) x

theorem Scheduled.perform {lib : Crates} {network : BitcoinNetwork}
    {may : List Effect → Machine → Action → Prop} {x : List Effect × Machine}
    (h : Scheduled lib network may x.1 x.2) {actions : List Action}
    (hmay : ∀ a ∈ actions, ∀ trace m, may trace m a) :
    Scheduled lib network may (Machine.perform lib x actions).1
      (Machine.perform lib x actions).2 := by
  induction actions generalizing x with
  | nil => exact h
  | cons a actions ih =>
    have hstep := h.step a (hmay a List.mem_cons_self _ _)
    exact ih hstep fun a' ha' => hmay a' (List.mem_cons_of_mem _ ha')

namespace Sample

/-- A canister that was installed. -/
def installed : Machine := ⟨⟨(Store.empty Config.default).memSetConfig config, []⟩, []⟩

/-- It was started and stopped again when its callback had indexed a block. The next callback
    has indexed one more and has ended then. -/
def stopped : List Effect × Machine :=
  Machine.perform crates ([], installed.step crates (.start true))
    [.fire 0 order, .reply 0 reply, .reply 0 reply, .stop true, .fire 0 order, .reply 0 reply,
      .reply 0 reply]

/-- It was started once more and waits for the third block. -/
def restarted : List Effect × Machine :=
  Machine.perform crates (stopped.1 ++ stopped.2.effects crates (.start true),
    stopped.2.step crates (.start true)) [.fire 0 order, .reply 0 reply]

/-- It was started twice. One callback has indexed a block, and the other one has been told
    the hash of that block before. -/
def startedTwice : List Effect × Machine :=
  Machine.perform crates ([], installed) [.start true, .start true, .fire 0 order, .fire 0 order,
    .reply 0 reply, .reply 0 reply, .reply 0 reply]

end Sample

/-- Two blocks have been applied, one before the stop and one after it, and the third one begins
    on top of them after the next start. -/
theorem Scheduled.applied_once_sample :
    ∃ trace m segment block s, Scheduled Sample.crates .regtest StartWhenIdle trace m ∧
      (held trace).length = 2 ∧ m.canister.store.memStatisticRunes = 2 ∧
      AppliedOnce Sample.crates .regtest trace m.canister.store ∧
      m.segment Sample.crates (.reply 0 Sample.reply) = some segment ∧
      .begun 2 block s ∈ segment.effects ∧ s.Extends Sample.crates 2 block ∧
      AtBoundary Sample.crates .regtest trace s := by
  have hinit : Scheduled Sample.crates .regtest StartWhenIdle [] Sample.installed := .init rfl rfl
  have hstart := hinit.step (.start true) fun _ => ⟨rfl, rfl, rfl⟩
  have hstopped : Scheduled Sample.crates .regtest StartWhenIdle Sample.stopped.1
      Sample.stopped.2 := by
    apply Scheduled.perform (x := ([], Sample.installed.step Sample.crates (.start true))) hstart
    intro a ha trace m
    simp only [List.mem_cons, List.not_mem_nil, or_false] at ha
    rcases ha with rfl | rfl | rfl | rfl | rfl | rfl | rfl <;> trivial
  -- nothing is left of the first loop
  have hrestart := hstopped.step (.start true) fun _ => ⟨rfl, rfl, by decide⟩
  have hrestarted : Scheduled Sample.crates .regtest StartWhenIdle Sample.restarted.1
      Sample.restarted.2 := by
    apply Scheduled.perform (x := (Sample.stopped.1 ++ Sample.stopped.2.effects Sample.crates
      (.start true), Sample.stopped.2.step Sample.crates (.start true))) hrestart
    intro a ha trace m
    simp only [List.mem_cons, List.not_mem_nil, or_false] at ha
    rcases ha with rfl | rfl <;> trivial
  obtain ⟨happlied, hbegins⟩ := hrestarted.applied_once
  obtain ⟨hextends, -, hboundary⟩ := hbegins (.reply 0 Sample.reply) _ 2 _ _ rfl List.mem_cons_self
  exact ⟨_, _, _, _, _, hrestarted, by decide, by decide, happlied, rfl, List.mem_cons_self,
    hextends, hboundary⟩

/-- After two calls of `start` both callbacks index the first block. The second one begins
    when the header of that block is stored, and it counts the rune that the block etches
    once more. -/
theorem Scheduled.start_twice :
    ∃ trace m a segment block s,
      Scheduled Sample.crates .regtest (fun _ _ _ => True) trace m ∧
      m.segment Sample.crates a = some segment ∧ .begun 0 block s ∈ segment.effects ∧
      s.memLatestBlock Sample.crates = some (0, 1) ∧ ¬ s.Extends Sample.crates 0 block ∧
      held (trace ++ m.effects Sample.crates a) = [block, block] ∧
      (m.step Sample.crates a).canister.store.memStatisticRunes = 2 ∧
      (m.step Sample.crates a).canister.store.runeIdToRuneEntry.size = 1 := by
  have hinit : Scheduled Sample.crates .regtest (fun _ _ _ => True) [] Sample.installed :=
    .init rfl rfl
  have hrun : Scheduled Sample.crates .regtest (fun _ _ _ => True) Sample.startedTwice.1
      Sample.startedTwice.2 := by
    apply Scheduled.perform (x := ([], Sample.installed)) hinit
    intro _ _ _ _
    trivial
  refine ⟨_, _, .reply 0 Sample.reply, _, _, _, hrun, rfl, List.mem_cons_self, by decide, ?_, rfl,
    by decide, by decide⟩
  intro h
  have := (h 0 1 (by decide)).1
  omega

end RunesIndexer
