import RunesIndexer.Spec.Window
import RunesIndexer.Model.Sample

/-! # Runs over chains

    A run of the index is made of completed steps: the next block is indexed and
    the log pruned, or a rollback that `detect_reorg` asked for is carried out.
    It is indexed by the chain it holds, the blocks indexed and not rolled back.
    Which chains may be indexed and what the node answers while a block is
    indexed are parameters.
-/

namespace RunesIndexer

open Resumption

/-! ### Positions in a chain -/

/-- A transaction of a chain, with its height and its index in the block. -/
structure Located where
  id : RuneId
  tx : Transaction
  txid : Txid

/-- The transactions of the block at `height`. -/
def BlockData.located (height : Nat) (b : BlockData) : List Located :=
  b.txdata.zipIdx.map fun e => ⟨⟨height, e.2⟩, e.1.1, e.1.2⟩

/-- The transactions of a chain whose first block is at `height`. -/
def located : Nat → List BlockData → List Located
  | _, [] => []
  | height, b :: rest => b.located height ++ located (height + 1) rest

theorem located_append (height : Nat) (chain : List BlockData) (b : BlockData) :
    located height (chain ++ [b]) = located height chain ++ b.located (height + chain.length) := by
  induction chain generalizing height with
  | nil => simp [located]
  | cons a rest ih =>
    simp only [List.cons_append, located, ih, List.append_assoc, List.length_cons]
    rw [show height + 1 + rest.length = height + (rest.length + 1) by omega]

/-- The transactions done when the block at the tip is indexed up to its `i`-th one. -/
def doneAt (height : Nat) (chain : List BlockData) (b : BlockData) (i : Nat) : List Located :=
  located height chain ++ (b.located (height + chain.length)).take i

@[simp] theorem doneAt_zero (height : Nat) (chain : List BlockData) (b : BlockData) :
    doneAt height chain b 0 = located height chain := by
  simp [doneAt]

theorem doneAt_length (height : Nat) (chain : List BlockData) (b : BlockData) :
    doneAt height chain b b.txdata.length = located height (chain ++ [b]) := by
  have hlen : (b.located (height + chain.length)).length = b.txdata.length := by
    simp [BlockData.located]
  rw [doneAt, located_append, ← hlen, List.take_length]

theorem doneAt_succ (height : Nat) (chain : List BlockData) {b : BlockData} {i : Nat}
    {tx : Transaction} {txid : Txid} (h : b.txdata[i]? = some (tx, txid)) :
    doneAt height chain b (i + 1) =
      doneAt height chain b i ++ [⟨⟨height + chain.length, i⟩, tx, txid⟩] := by
  have hget : (b.located (height + chain.length))[i]? =
      some ⟨⟨height + chain.length, i⟩, tx, txid⟩ := by
    simp [BlockData.located, List.getElem?_zipIdx, h]
  rw [doneAt, doneAt, List.take_add_one, hget]
  simp

/-- Positions lie within the chain. -/
theorem mem_located_block {height : Nat} {chain : List BlockData} {d : Located}
    (h : d ∈ located height chain) : d.id.block < height + chain.length := by
  induction chain generalizing height with
  | nil => cases h
  | cons b rest ih =>
    rw [located, List.mem_append] at h
    rw [List.length_cons]
    rcases h with h | h
    · obtain ⟨e, -, rfl⟩ := List.mem_map.mp h
      exact Nat.lt_add_of_pos_right (Nat.succ_pos _)
    · have := ih h
      omega

/-- Positions in a block are those of a `Vec`. -/
theorem mem_located_tx {height : Nat} {chain : List BlockData} {d : Located}
    (h : d ∈ located height chain) : d.id.tx < usizeBound := by
  induction chain generalizing height with
  | nil => cases h
  | cons b rest ih =>
    rw [located, List.mem_append] at h
    rcases h with h | h
    · obtain ⟨e, he, rfl⟩ := List.mem_map.mp h
      have hlt := List.snd_lt_of_mem_zipIdx he
      have := b.txdataFits
      show e.2 < usizeBound
      omega
    · exact ih h

/-- What is done precedes what comes next. -/
theorem mem_doneAt_precedes {height : Nat} {chain : List BlockData} {b : BlockData} {i : Nat}
    {d : Located} (h : d ∈ doneAt height chain b i) :
    d.id.Precedes ⟨height + chain.length, i⟩ := by
  rw [doneAt, List.mem_append] at h
  rcases h with h | h
  · exact .inl (mem_located_block h)
  · obtain ⟨k, hk, hget⟩ := List.mem_take_iff_getElem.mp h
    subst hget
    refine .inr ⟨?_, ?_⟩ <;> simp only [BlockData.located, List.getElem_map, List.getElem_zipIdx]
    omega

/-- The ids of the transactions of a chain. -/
def chainTxids (chain : List BlockData) : List Txid := chain.flatMap BlockData.txids

@[simp] theorem chainTxids_append (chain : List BlockData) (b : BlockData) :
    chainTxids (chain ++ [b]) = chainTxids chain ++ b.txids := by
  simp [chainTxids]

theorem map_txid_blockLocated (height : Nat) (b : BlockData) :
    (b.located height).map (·.txid) = b.txids := by
  unfold BlockData.located BlockData.txids
  rw [List.map_map]
  calc b.txdata.zipIdx.map ((·.txid) ∘ fun e => (⟨⟨height, e.2⟩, e.1.1, e.1.2⟩ : Located))
      = (b.txdata.zipIdx.map Prod.fst).map Prod.snd := by rw [List.map_map]; rfl
    _ = b.txdata.map Prod.snd := by rw [List.zipIdx_map_fst]

theorem map_txid_located (height : Nat) (chain : List BlockData) :
    (located height chain).map (·.txid) = chainTxids chain := by
  induction chain generalizing height with
  | nil => rfl
  | cons b rest ih =>
    rw [located, List.map_append, map_txid_blockLocated, ih]
    simp [chainTxids]

/-- No two transactions of the chain have the same id. -/
def DistinctTxids (chain : List BlockData) : Prop := (chainTxids chain).Nodup

instance (chain : List BlockData) : Decidable (DistinctTxids chain) :=
  inferInstanceAs (Decidable (List.Nodup _))

/-- The txids of a block are new to a chain that stays distinct with it. -/
theorem DistinctTxids.fresh {chain : List BlockData} {b : BlockData}
    (h : DistinctTxids (chain ++ [b])) {txid : Txid} (hmem : txid ∈ b.txids) :
    txid ∉ chainTxids chain := by
  unfold DistinctTxids at h
  rw [chainTxids_append] at h
  exact fun hin => (List.disjoint_of_nodup_append h) hin hmem

/-- A transaction of the next block has none of the txids done before it. -/
theorem DistinctTxids.fresh_doneAt {height : Nat} {chain : List BlockData} {b : BlockData}
    (h : DistinctTxids (chain ++ [b])) {i : Nat} {tx : Transaction} {txid : Txid}
    (hget : b.txdata[i]? = some (tx, txid)) {d : Located} (hd : d ∈ doneAt height chain b i) :
    d.txid ≠ txid := by
  unfold DistinctTxids at h
  rw [← map_txid_located height, ← doneAt_length] at h
  have hsub : (doneAt height chain b (i + 1)).Sublist (doneAt height chain b b.txdata.length) :=
    List.Sublist.append_left (List.take_sublist_take_left
      (List.getElem?_eq_some_iff.mp hget).1) _
  have hnodup := h.sublist (hsub.map (·.txid))
  rw [doneAt_succ height chain hget, List.map_append] at hnodup
  intro heq
  exact List.disjoint_of_nodup_append hnodup (List.mem_map_of_mem hd)
    (List.mem_singleton.mpr heq)

/-- The transactions of a chain with their txids. -/
def chainTxs (chain : List BlockData) : List (Transaction × Txid) :=
  chain.flatMap BlockData.txdata

theorem map_tx_blockLocated (height : Nat) (b : BlockData) :
    (b.located height).map (fun d => (d.tx, d.txid)) = b.txdata := by
  unfold BlockData.located
  rw [List.map_map]
  exact List.zipIdx_map_fst 0 b.txdata

theorem map_tx_located (height : Nat) (chain : List BlockData) :
    (located height chain).map (fun d => (d.tx, d.txid)) = chainTxs chain := by
  induction chain generalizing height with
  | nil => rfl
  | cons b rest ih =>
    rw [located, List.map_append, map_tx_blockLocated, ih]
    simp [chainTxs]

/-- No input refers to an output of its own transaction or of a later one. -/
structure EarlierInputs (chain : List BlockData) : Prop where
  notOwn : ∀ a ∈ chainTxs chain, ∀ input ∈ a.1.input, input.previousOutput.txid ≠ a.2
  notLater : (chainTxs chain).Pairwise fun a b =>
    ∀ input ∈ a.1.input, input.previousOutput.txid ≠ b.2

instance (chain : List BlockData) : Decidable (EarlierInputs chain) :=
  decidable_of_iff
    ((∀ a ∈ chainTxs chain, ∀ input ∈ a.1.input, input.previousOutput.txid ≠ a.2) ∧
      (chainTxs chain).Pairwise fun a b => ∀ input ∈ a.1.input, input.previousOutput.txid ≠ b.2)
    ⟨fun h => ⟨h.1, h.2⟩, fun h => ⟨h.notOwn, h.notLater⟩⟩

/-- No transaction done up to the next one has an input that refers to the next one. -/
theorem EarlierInputs.doneAt {height : Nat} {chain : List BlockData} {b : BlockData}
    (h : EarlierInputs (chain ++ [b])) {i : Nat} {tx : Transaction} {txid : Txid}
    (hget : b.txdata[i]? = some (tx, txid)) {d : Located}
    (hd : d ∈ RunesIndexer.doneAt height chain b (i + 1)) {input : TxIn}
    (hinput : input ∈ d.tx.input) : input.previousOutput.txid ≠ txid := by
  have hsub : (RunesIndexer.doneAt height chain b (i + 1)).Sublist
      (RunesIndexer.doneAt height chain b b.txdata.length) :=
    List.Sublist.append_left (List.take_sublist_take_left
      (List.getElem?_eq_some_iff.mp hget).1) _
  have hmap := hsub.map fun d => (d.tx, d.txid)
  rw [doneAt_length, map_tx_located] at hmap
  rw [doneAt_succ height chain hget] at hd hmap
  rw [List.map_append] at hmap
  rcases List.mem_append.mp hd with hd | hd
  · have hpair := (h.notLater.sublist hmap)
    exact (List.pairwise_append.mp hpair).2.2 (d.tx, d.txid)
      (List.mem_map_of_mem (f := fun d : Located => (d.tx, d.txid)) hd) (tx, txid)
      (List.mem_singleton.mpr rfl) input hinput
  · rw [List.mem_singleton] at hd
    subst hd
    exact h.notOwn (tx, txid) (hmap.subset (List.mem_append_right _ (List.mem_singleton.mpr rfl)))
      input hinput

/-! ### Runs -/

/-- What the node answers while the last block of a chain is indexed. -/
abbrev Node : Type := List BlockData → Answers

/-- Runs of completed steps, by the chain they hold and the state they reach. Each step
    has its own iteration orders. -/
inductive Run (lib : Crates) (network : BitcoinNetwork) (node : Node)
    (admits : List BlockData → Prop) : List BlockData → Store → Prop
  | init (config : Config) : Run lib network node admits [] (Store.empty config)
  | index {chain : List BlockData} {s s' : Store} {b : BlockData} {ord : HashOrder}
      (run : Run lib network node admits chain s) (admitted : admits (chain ++ [b]))
      (indexed : Proc.Runs (node (chain ++ [b]))
        ((indexBlock lib ord network (s.nextBlock lib network).1 b).run s) (.ok s' ())) :
      Run lib network node admits (chain ++ [b])
        (Reorg.pruneChangeRecord network (s.nextBlock lib network).1 s')
  | reorg {chain : List BlockData} {s s' : Store} {prev : BlockHash} {height depth : Nat}
      {ord : HashOrder} (run : Run lib network node admits chain s)
      (detected : Proc.Runs Answers.any
        ((Reorg.detectReorg lib network (s.nextBlock lib network).2 prev
          (s.nextBlock lib network).1).run s) (.ok s (.error (.recoverable height depth))))
      (undone : (Reorg.handleReorg ord height depth).run s = .ok s' ()) :
      Run lib network node admits (chain.take (chain.length - (depth - 1))) s'

/-- Indexing a block and pruning keeps a window. -/
theorem Window.step {lib : Crates} {network : BitcoinNetwork} {lo : Nat}
    {chain : List BlockData} {s s' : Store} {b : BlockData} {ord : HashOrder} {ans : Answers}
    (h : Window lib network lo chain s)
    (hrun : Proc.Runs ans
      ((indexBlock lib ord network (lib.firstRuneHeight network + chain.length) b).run s)
      (.ok s' ())) :
    ∃ lo', lo ≤ lo' ∧ Window lib network lo' (chain ++ [b])
      (Reorg.pruneChangeRecord network (lib.firstRuneHeight network + chain.length) s') := by
  have hwin := (h.index (indexBlock_writes hrun)).prune (by simp)
  rw [List.length_append, List.length_singleton, Nat.add_sub_cancel] at hwin
  exact ⟨_, le_max_left _ _, hwin⟩

theorem Run.window {lib : Crates} {network : BitcoinNetwork} {node : Node}
    {admits : List BlockData → Prop} {chain : List BlockData} {s : Store}
    (h : Run lib network node admits chain s) : ∃ lo, Window lib network lo chain s := by
  induction h with
  | init config => exact ⟨_, .empty lib network config⟩
  | index run admitted indexed ih =>
    obtain ⟨lo, hwin⟩ := ih
    rw [hwin.nextBlock] at indexed ⊢
    obtain ⟨lo', -, hwin'⟩ := hwin.step indexed
    exact ⟨lo', hwin'⟩
  | reorg run detected undone ih =>
    obtain ⟨lo, hwin⟩ := ih
    obtain ⟨-, hheight, hdepth, hle, hlo⟩ := hwin.detected detected
    exact ⟨lo, hwin.handleReorg hheight hdepth hle hlo undone⟩

/-! ### Executing a chain -/

/-- Index a chain block by block, the calls answered by `f`. -/
def indexChain (lib : Crates) (ord : HashOrder) (network : BitcoinNetwork)
    (f : (q : Call) → Reply q) : List BlockData → Store → Option Store
  | [], s => some s
  | b :: rest, s =>
    match ((indexBlock lib ord network (s.nextBlock lib network).1 b).run s).resultWith f with
    | .ok s' () => indexChain lib ord network f rest
        (Reorg.pruneChangeRecord network (s.nextBlock lib network).1 s')
    | .err _ _ => none
    | .trap _ => none

/-- A chain that executes is a run. -/
theorem run_of_indexChain {lib : Crates} {ord : HashOrder} {network : BitcoinNetwork}
    {node : Node} {admits : List BlockData → Prop} {f : (q : Call) → Reply q}
    (hnode : ∀ chain q, node chain q (f q)) {chain rest : List BlockData} {s s' : Store}
    (hadmits : ∀ n, admits (chain ++ rest.take (n + 1)))
    (hrun : Run lib network node admits chain s)
    (h : indexChain lib ord network f rest s = some s') :
    Run lib network node admits (chain ++ rest) s' := by
  induction rest generalizing chain s with
  | nil =>
    cases h
    rw [List.append_nil]
    exact hrun
  | cons b rest ih =>
    unfold indexChain at h
    split at h
    · next s₁ hresult =>
      have hindexed := Proc.runs_resultWith (hnode (chain ++ [b]))
        ((indexBlock lib ord network (s.nextBlock lib network).1 b).run s)
      rw [hresult] at hindexed
      have hall : Run lib network node admits (chain ++ [b] ++ rest) s' :=
        ih (fun n => by simpa using hadmits (n + 1))
          (.index hrun (by simpa using hadmits 0) hindexed) h
      simpa using hall
    · cases h
    · cases h

/-- A step of a run: a block is indexed, or the block that names `prev` comes from a node that
    answers as `f` does, and a rollback is due. -/
inductive Move where
  | index (b : BlockData)
  | reorg (prev : BlockHash) (f : (q : Call) → Reply q)

/-- Execute steps as long as the chain is an admitted one, the calls of `index_block` answered by
    `f`. -/
def execute (lib : Crates) (ord : HashOrder) (network : BitcoinNetwork)
    (f : (q : Call) → Reply q) (admits : List BlockData → Bool) :
    List Move → List BlockData × Store → Option (List BlockData × Store)
  | [], x => some x
  | .index b :: rest, (chain, s) =>
    if admits (chain ++ [b]) then
      match ((indexBlock lib ord network (s.nextBlock lib network).1 b).run s).resultWith f with
      | .ok s' () => execute lib ord network f admits rest
          (chain ++ [b], Reorg.pruneChangeRecord network (s.nextBlock lib network).1 s')
      | _ => none
    else none
  | .reorg prev g :: rest, (chain, s) =>
    match ((Reorg.detectReorg lib network (s.nextBlock lib network).2 prev
        (s.nextBlock lib network).1).run s).resultWith g with
    | .ok _ (.error (.recoverable height depth)) =>
      match (Reorg.handleReorg ord height depth).run s with
      | .ok s' () => execute lib ord network f admits rest
          (chain.take (chain.length - (depth - 1)), s')
      | _ => none
    | _ => none

/-- Steps that execute make a run. -/
theorem run_of_execute {lib : Crates} {ord : HashOrder} {network : BitcoinNetwork} {node : Node}
    {admits : List BlockData → Prop} {f : (q : Call) → Reply q}
    {check : List BlockData → Bool} (hnode : ∀ chain q, node chain q (f q))
    (hcheck : ∀ chain, check chain = true → admits chain) {moves : List Move}
    {chain chain' : List BlockData} {s s' : Store} (hrun : Run lib network node admits chain s)
    (h : execute lib ord network f check moves (chain, s) = some (chain', s')) :
    Run lib network node admits chain' s' := by
  induction moves generalizing chain s with
  | nil =>
    cases h
    exact hrun
  | cons move rest ih =>
    cases move with
    | index b =>
      unfold execute at h
      split at h
      · next hadmits =>
        split at h
        · next s₁ hresult =>
          have hindexed := Proc.runs_resultWith (hnode (chain ++ [b]))
            ((indexBlock lib ord network (s.nextBlock lib network).1 b).run s)
          rw [hresult] at hindexed
          exact ih (.index hrun (hcheck _ hadmits) hindexed) h
        · cases h
      · cases h
    | reorg prev g =>
      unfold execute at h
      split at h
      · next s₁ height depth hresult =>
        have hdetect := Proc.runs_resultWith (show ∀ q, Answers.any q (g q) from fun _ => trivial)
          ((Reorg.detectReorg lib network (s.nextBlock lib network).2 prev
            (s.nextBlock lib network).1).run s)
        rw [hresult] at hdetect
        obtain rfl := (Reorg.detectReorg_readOnly _ _ _ _ _).ok hdetect
        split at h
        · next s₂ hundone => exact ih (.reorg hrun hdetect hundone) h
        · cases h
      · cases h

/-- Each call is answered as `f` says. -/
def Answers.only (f : (q : Call) → Reply q) : Answers := fun q a => a = f q

theorem runs_only {α : Type} (f : (q : Call) → Reply q) (p : IndexProc α) :
    Proc.Runs (Answers.only f) p (p.resultWith f) := by
  have hf : ∀ q, Answers.only f q (f q) := fun _ => rfl
  exact Proc.runs_resultWith hf p

theorem Answers.only_functional (f : (q : Call) → Reply q) (q : Call) (a a' : Reply q)
    (h : Answers.only f q a) (h' : Answers.only f q a') : a = a' :=
  h.trans h'.symm

/-- The node that answers as the sample does and in no other way. -/
def Sample.replies : Node := fun _ q a => a = Sample.reply q

theorem distinctTxids_sample : ∀ n, DistinctTxids (Sample.chain.take (n + 1))
  | 0 => by decide
  | n + 1 => by
    rw [List.take_of_length_le (by simp [Sample.chain])]
    decide

namespace Sample

/-- The mint in another block, before another etching. -/
def otherBlock : BlockData :=
  block 1 9 [(tx [spend 1 1 []] [2, 0, 0], 2), (tx [] [1], 3)] (by decide)

/-- The node replaces the block with the mint. -/
def moves : List Move :=
  [.index etchBlock, .index mintBlock, .reorg 9 (serving [plainBlock 0 1 0, plainBlock 1 9 0]),
    .index otherBlock]

/-- What is held after that. -/
def reorgedChain : List BlockData := [etchBlock, otherBlock]

end Sample

/-- The state after the steps of the sample. -/
def Sample.moved : Option (List BlockData × Store) :=
  execute crates order .regtest reply (fun chain => DistinctTxids chain) moves
    ([], Store.empty config)

/-- The steps of the sample can be taken, and their run ends in the state that is executed. -/
theorem moved_exec {P : Store → Bool}
    (h : Sample.moved.any (fun x => x.1 = Sample.reorgedChain ∧ P x.2) = true) :
    ∃ s, Sample.moved = some (Sample.reorgedChain, s) ∧ P s = true ∧
      ∀ node : Node, (∀ chain q, node chain q (Sample.reply q)) →
        Run Sample.crates .regtest node DistinctTxids Sample.reorgedChain s := by
  obtain ⟨⟨chain, s⟩, hs, hP⟩ := (Option.any_eq_true _ _).mp h
  obtain ⟨rfl, hP⟩ := of_decide_eq_true hP
  exact ⟨s, hs, hP, fun node hnode =>
    run_of_execute hnode (fun _ hc => of_decide_eq_true hc) (.init Sample.config) hs⟩

/-- The sample chain can be indexed, and the run ends in the state that is executed. -/
theorem sample_exec (admits : List BlockData → Prop)
    (hadmits : ∀ n, admits (Sample.chain.take (n + 1))) {P : Store → Bool}
    (h : (indexChain Sample.crates Sample.order .regtest Sample.reply Sample.chain
      (Store.empty Sample.config)).any P = true) :
    ∃ s, Run Sample.crates .regtest (fun _ => Answers.any) admits Sample.chain s ∧ P s = true := by
  obtain ⟨s, hs, hP⟩ := (Option.any_eq_true _ _).mp h
  have hrun : Run Sample.crates .regtest (fun _ => Answers.any) admits ([] ++ Sample.chain) s :=
    run_of_indexChain (fun _ _ => trivial) hadmits (.init Sample.config) hs
  exact ⟨s, hrun, hP⟩

/-- The rune of the sample chain and its entry. -/
theorem sample_run (admits : List BlockData → Prop)
    (hadmits : ∀ n, admits (Sample.chain.take (n + 1))) :
    ∃ s e, Run Sample.crates .regtest (fun _ => Answers.any) admits Sample.chain s ∧
      s.runeIdToRuneEntry.get? Sample.runeId = some e ∧ e.mints = 1 ∧ e.premine = 100 ∧
      e.burned = 0 ∧ e.mintAmount = 5 ∧ e.etching = 1 := by
  obtain ⟨s, hrun, hany⟩ := sample_exec admits hadmits
    (P := fun s => (s.runeIdToRuneEntry.get? Sample.runeId).any fun e =>
      e.mints = 1 ∧ e.premine = 100 ∧ e.burned = 0 ∧ e.mintAmount = 5 ∧ e.etching = 1) (by decide)
  obtain ⟨e, he, hvalues⟩ := (Option.any_eq_true _ _).mp hany
  exact ⟨s, e, hrun, he, by simpa using hvalues⟩

end RunesIndexer
