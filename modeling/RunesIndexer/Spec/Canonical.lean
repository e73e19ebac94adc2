import RunesIndexer.Spec.Congruence
import RunesIndexer.Spec.History

/-! # The index is a function of the chain it holds

    A straight run indexes a chain block by block and never rolls back. It always
    exists for the chain that a run holds, its ledger is determined by the chain, and the
    run has that ledger too.
-/

namespace RunesIndexer

open Resumption RuneUpdater Journal

/-- Indexing a chain from the empty index without any reorg. -/
inductive StraightRun (lib : Crates) (network : BitcoinNetwork) (node : Node) :
    List BlockData → Store → Prop
  | init (config : Config) : StraightRun lib network node [] (Store.empty config)
  | index {chain : List BlockData} {s s' : Store} {b : BlockData} {ord : HashOrder}
      (run : StraightRun lib network node chain s)
      (indexed : Proc.Runs (node (chain ++ [b]))
        ((indexBlock lib ord network (s.nextBlock lib network).1 b).run s) (.ok s' ())) :
      StraightRun lib network node (chain ++ [b])
        (Reorg.pruneChangeRecord network (s.nextBlock lib network).1 s')

/-- Each call has one answer while a given chain is indexed. -/
def Node.Functional (node : Node) : Prop :=
  ∀ chain q a a', node chain q a → node chain q a' → a = a'

variable {lib : Crates} {network : BitcoinNetwork} {node : Node} {chain : List BlockData}

namespace StraightRun

theorem run {s : Store} (h : StraightRun lib network node chain s) :
    Run lib network node (fun _ => True) chain s := by
  induction h with
  | init config => exact .init config
  | index _ indexed ih => exact .index ih trivial indexed

/-- The last step of a straight run. -/
theorem last {b : BlockData} {s : Store} (h : StraightRun lib network node (chain ++ [b]) s) :
    ∃ s₁ s₂ ord, StraightRun lib network node chain s₁ ∧
      Proc.Runs (node (chain ++ [b]))
        ((indexBlock lib ord network (s₁.nextBlock lib network).1 b).run s₁) (.ok s₂ ()) ∧
      s = Reorg.pruneChangeRecord network (s₁.nextBlock lib network).1 s₂ := by
  generalize hc : chain ++ [b] = c at h
  cases h with
  | init config => simp at hc
  | @index chain' s₁ s₂ b' ord run indexed =>
    obtain ⟨rfl, hb⟩ := List.append_inj' hc rfl
    cases hb
    exact ⟨s₁, s₂, ord, run, indexed, rfl⟩

/-- What the last step leaves in the ledger is what the block left. -/
theorem ledger_prune {s s' : Store} {b : BlockData} {ord : HashOrder} {ans : Answers} {lo : Nat}
    (hwin : Window lib network lo chain s)
    (h : Proc.Runs ans
      ((indexBlock lib ord network (s.nextBlock lib network).1 b).run s) (.ok s' ())) :
    (Reorg.pruneChangeRecord network (s.nextBlock lib network).1 s').ledger = s'.ledger := by
  rw [hwin.nextBlock] at h ⊢
  exact pruneChangeRecord_ledger network ((indexBlock_writes h).rowsEnd hwin.rowsBelow)

/-- The chain determines the ledger. -/
theorem unique (hnode : node.Functional) {s s' : Store}
    (h : StraightRun lib network node chain s) (h' : StraightRun lib network node chain s') :
    s.ledger = s'.ledger := by
  induction h generalizing s' with
  | init config =>
    generalize hc : ([] : List BlockData) = c at h'
    cases h' with
    | init config' => rw [Store.ledger_empty, Store.ledger_empty]
    | index _ _ => simp at hc
  | @index chain s s₁ b ord run indexed ih =>
    obtain ⟨t, t₁, ord', run', indexed', rfl⟩ := h'.last
    obtain ⟨lo, hwin⟩ := run.run.window
    obtain ⟨lo', hwin'⟩ := run'.run.window
    rw [ledger_prune hwin indexed, ledger_prune hwin' indexed']
    rw [hwin.nextBlock] at indexed
    rw [hwin'.nextBlock] at indexed'
    -- the second block starts from the ledger of the first, so it has a run that ends like it
    obtain ⟨t₂, ⟨⟩, hrun, hsame, -⟩ := (indexBlock_sim lib ord ord' network _ b
      hwin.rowsBelow.upTo hwin'.rowsBelow.upTo (ih run')).runs_ok indexed
    cases hrun.unique (hnode _) indexed'
    exact hsame.ledger

end StraightRun

/-- A replay of a chain can be repeated without reorgs. -/
theorem Replays.straight {admits : List BlockData → Prop} (config : Config)
    {fs : List LedgerFrame} (h : Replays lib network node admits .all fs) :
    ∃ s, StraightRun lib network node (items fs) s ∧ s.ledger = current Ledger.empty fs := by
  refine h.invariant
    (P := fun chain L => ∃ s, StraightRun lib network node chain s ∧ s.ledger = L)
    ⟨_, .init config, Store.ledger_empty config⟩ ?_
  rintro chain b r L L' ⟨s, hstraight, rfl⟩ hblock
  obtain ⟨ord, s₁, s₂, hrows, hL, hrun, -, hL'⟩ := hblock.indexed
  obtain ⟨lo, hwin⟩ := hstraight.run.window
  obtain ⟨s₃, ⟨⟩, hrun', hsame, -⟩ := (indexBlock_sim lib ord ord network _ b hrows.upTo
    hwin.rowsBelow.upTo hL.eq).runs_ok hrun
  have hindexed : Proc.Runs (node (chain ++ [b]))
      ((indexBlock lib ord network (s.nextBlock lib network).1 b).run s) (.ok s₃ ()) := by
    rw [hwin.nextBlock]
    exact hrun'
  refine ⟨_, .index hstraight hindexed, ?_⟩
  rw [StraightRun.ledger_prune hwin hindexed, ← hsame.ledger]
  exact hL'.eq

/-- Whatever reorgs a run went through, the chain it holds can be indexed from the empty
    index without any, and every way to do so ends with the same content and the same next
    block. -/
theorem Run.canonical (hres : ReservedNames lib) (hnode : node.Functional) {s : Store}
    (h : Run lib network node DistinctTxids chain s) :
    (∃ s₀, StraightRun lib network node chain s₀) ∧
    ∀ s₀, StraightRun lib network node chain s₀ →
      s.ledger = s₀.ledger ∧ s.nextBlock lib network = s₀.nextBlock lib network := by
  obtain ⟨lo, fs, rfl, hJ⟩ := h.journaled (p := .all) fun _ hd => ⟨fun _ => hd, fun _ => ⟨hd, hres⟩⟩
  obtain ⟨s₁, hstraight, hledger⟩ := Replays.straight s.config hJ.replay
  refine ⟨⟨s₁, hstraight⟩, fun s₀ h₀ => ⟨?_, ?_⟩⟩
  · rw [hJ.now.eq, ← hledger]
    exact hstraight.unique hnode h₀
  · obtain ⟨lo₀, hwin₀⟩ := h₀.run.window
    rw [hJ.window.nextBlock, hwin₀.nextBlock]

/-- A run in which the second block was replaced. -/
theorem Run.canonical_sample :
    ∃ s s₀, Sample.moved = some (Sample.reorgedChain, s) ∧
      Run Sample.crates .regtest Sample.replies DistinctTxids Sample.reorgedChain s ∧
      StraightRun Sample.crates .regtest Sample.replies Sample.reorgedChain s₀ ∧
      s.ledger = s₀.ledger ∧
      s.nextBlock Sample.crates .regtest = s₀.nextBlock Sample.crates .regtest := by
  obtain ⟨s, hs, -, hrun⟩ := moved_exec (P := fun _ => true) (by decide)
  have hrun := hrun Sample.replies fun _ _ => rfl
  obtain ⟨⟨s₀, h₀⟩, heq⟩ := Run.canonical reservedNames_sample
    (fun _ _ _ _ h h' => h.trans h'.symm) hrun
  obtain ⟨hledger, hnext⟩ := heq s₀ h₀
  exact ⟨s, s₀, hs, hrun, h₀, hledger, hnext⟩

end RunesIndexer
