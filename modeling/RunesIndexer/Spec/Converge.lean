import RunesIndexer.Lib.Convergence
import RunesIndexer.Spec.Authentic
import RunesIndexer.Spec.Canonical
import RunesIndexer.Spec.Iteration
import RunesIndexer.Spec.NoTrap
import RunesIndexer.Spec.ReorgDepth

/-! # Catching up with a node

    A node serves one chain of blocks and answers what it is asked about them. From any
    state the loop gets to that chain: it rolls back what the node has replaced, in one
    iteration, and indexes one block with each of the next. Then it waits.
-/

namespace RunesIndexer

open Resumption Convergence Journal

/-! ### The node -/

/-- The blocks as the loop takes them. -/
def servedChain (lib : Crates) (served : List Block) : List BlockData :=
  served.map (BlockData.ofBlock lib)

/-- `f` answers with the blocks of one chain, and knows about the outputs that a commitment in
    them may be in. -/
structure Serves (lib : Crates) (network : BitcoinNetwork) (f : (q : Call) → Reply q)
    (served : List Block) : Prop where
  linked : Linked lib (servedChain lib served)
  distinct : DistinctTxids (servedChain lib served)
  hash : ∀ i b, served[i]? = some b → f (.getBlockHash network (lib.firstRuneHeight network + i)) =
    (.ok (some (lib.blockHash b.header)) : Except Error (Option BlockHash))
  tip : f (.getBlockHash network (lib.firstRuneHeight network + served.length)) =
    (.ok none : Except Error (Option BlockHash))
  block : ∀ b ∈ served, f (.innerGetBlock (lib.blockHash b.header)) =
    (.ok b : Except Error Block) ∧ lib.checkMerkleRoot b = true
  spent : ∀ i b, served[i]? = some b → ∀ tx ∈ b.txdata, ∀ names minimum o,
    lib.Asks names minimum tx o →
    (Answers.only f).Tame lib (fun _ => False) (lib.firstRuneHeight network + i) o

/-- The first `m` blocks of `chain` are the node's. What is above them it has replaced, within
    the reach of a reorg, and it is ahead. -/
structure Forked (lib : Crates) (network : BitcoinNetwork) (served : List Block) (s : Store)
    (chain : List BlockData) (m : Nat) : Prop where
  le : m ≤ chain.length
  shared : chain.take m = (servedChain lib served).take m
  shorter : chain.length ≤ served.length
  ahead : m < chain.length → chain.length < served.length
  stored : m < chain.length → 0 < m ∧
    (s.heightToBlockHeader.get? (lib.firstRuneHeight network + (m - 1))).isSome
  reach : chain.length < m + Store.getMaxRecoverableReorgDepth network
  replaced : ∀ i a b, m ≤ i → chain[i]? = some a → served[i]? = some b →
    lib.blockHash a.header ≠ lib.blockHash b.header

/-- One iteration under the answers of `f`, after which the timer is armed again. -/
def IteratesTo (lib : Crates) (network : BitcoinNetwork) (f : (q : Call) → Reply q)
    (i : HashOrder × List Nat) (s s' : Store) : Prop :=
  Proc.Runs (Answers.only f) ((updateIndexIteration lib i.1 network i.2).run s) (.ok s' .rearm)

/-! ### The flag -/

theorem Reorg.rollbackHeight_flag {ord : HashOrder} {height : Nat} {s s' : Store}
    (h : (Reorg.rollbackHeight ord height).run s = .ok s' ()) :
    s'.shuttingDown = s.shuttingDown := by
  rw [Reorg.rollbackHeight_eq] at h
  obtain ⟨s₁, record, hrecord, hrest⟩ := Sync.bind_eq_ok.mp h
  cases hrecord
  cases hfound : s.memGetChangeRecord height with
  | none =>
    rw [hfound] at hrest
    cases hrest
    rfl
  | some record =>
    rw [hfound] at hrest
    obtain ⟨s₂, _, hundo, hdrop⟩ := Sync.bind_eq_ok.mp hrest
    cases hdrop
    exact (Reorg.undoRecord_sameHeights hundo).shuttingDown

theorem Reorg.handleReorg_flag {ord : HashOrder} {height depth : Nat} {s s' : Store}
    (h : (Reorg.handleReorg ord height depth).run s = .ok s' ()) :
    s'.shuttingDown = s.shuttingDown := by
  unfold Reorg.handleReorg at h
  generalize Reorg.rolledBack height depth = l at h
  induction l generalizing s with
  | nil => rw [MonadicFold.sync_forM_nil.mp h]
  | cons k l ih =>
    obtain ⟨s₁, h₁, h₂⟩ := MonadicFold.sync_forM_cons.mp h
    exact (ih h₂).trans (Reorg.rollbackHeight_flag h₁)

theorem Reorg.pruneChangeRecord_flag (network : BitcoinNetwork) (height : Nat) (s : Store) :
    (Reorg.pruneChangeRecord network height s).shuttingDown = s.shuttingDown := by
  unfold Reorg.pruneChangeRecord
  split <;> rfl

/-- Nobody stops the loop in a run without a controller. -/
theorem Run.flag {lib : Crates} {network : BitcoinNetwork} {node : Node}
    {admits : List BlockData → Prop} {chain : List BlockData} {s : Store}
    (h : Run lib network node admits chain s) : s.shuttingDown = false := by
  induction h with
  | init config => rfl
  | index run admitted indexed ih =>
    rw [Reorg.pruneChangeRecord_flag, (indexBlock_writes indexed).shuttingDown, ih]
  | reorg run detected undone ih => rw [Reorg.handleReorg_flag undone, ih]

section

variable {lib : Crates} {network : BitcoinNetwork} {f : (q : Call) → Reply q}
  {served : List Block} {chain : List BlockData} {s s' : Store}

/-! ### Parts of an iteration -/

theorem notifySubscribers_only (height : Nat) (hash : BlockHash) (b : BlockData)
    (subscribers : List Nat) (s : Store) :
    Proc.Runs (Answers.only f) ((notifySubscribers height hash b subscribers).run s) (.ok s ()) := by
  induction subscribers with
  | nil => exact .ok s ()
  | cons x rest ih => exact .await rfl ih

theorem rearmUnlessStopped_only (h : s.shuttingDown = false) :
    Proc.Runs (Answers.only f) (rearmUnlessStopped.run s) (.ok s .rearm) := by
  show Proc.Runs _ ((if s.shuttingDown = true then pure Flow.shutDown else pure Flow.rearm :
    AsyncM Flow).run s) _
  rw [h]
  exact .ok s Flow.rearm

/-- A block that the node serves passes the checks. -/
theorem Serves.getBlock (hserves : Serves lib network f served) {b : Block} (hb : b ∈ served)
    (s : Store) :
    Proc.Runs (Answers.only f) ((getBlock lib (lib.blockHash b.header)).run s)
      (.ok s (BlockData.ofBlock lib b)) := by
  obtain ⟨hblock, hroot⟩ := hserves.block b hb
  exact (getBlock_via.mpr ⟨hblock.symm, rfl, rfl, hroot, rfl⟩).runs

theorem getElem?_servedChain (i : Nat) :
    (servedChain lib served)[i]? = (served[i]?).map (BlockData.ofBlock lib) := List.getElem?_map

@[simp] theorem length_servedChain : (servedChain lib served).length = served.length :=
  List.length_map _

theorem DistinctTxids.take (h : DistinctTxids chain) (n : Nat) : DistinctTxids (chain.take n) :=
  h.sublist ((List.take_sublist n chain).flatMap _)

/-- With its next block the chain is still the node's. -/
theorem concat_served (hchain : chain = (servedChain lib served).take chain.length) {b : Block}
    (hb : served[chain.length]? = some b) :
    chain ++ [BlockData.ofBlock lib b] = (servedChain lib served).take (chain.length + 1) := by
  rw [List.take_add_one, ← hchain, getElem?_servedChain, hb]
  rfl

/-- The next block of the node is indexed. -/
theorem Serves.indexBlock (hlib : lib.Lawful) (hserves : Serves lib network f served)
    (h : Run lib network (fun _ => Answers.any) DistinctTxids chain s)
    (hchain : chain = (servedChain lib served).take chain.length) {b : Block}
    (hb : served[chain.length]? = some b) (ord : HashOrder) :
    ∃ s', Proc.Runs (Answers.only f) ((indexBlock lib ord network
        (lib.firstRuneHeight network + chain.length) (BlockData.ofBlock lib b)).run s)
        (.ok s' ()) := by
  obtain ⟨lo, hwin⟩ := h.window
  obtain ⟨hflow, hplaced⟩ := h.conserved
  have hdistinct : DistinctTxids (chain ++ [BlockData.ofBlock lib b]) := by
    rw [concat_served hchain hb]
    exact hserves.distinct.take _
  have hans : ∀ tx ∈ (BlockData.ofBlock lib b).txdata, ∀ o, lib.Asks s.runeToRuneId
      (lib.minimumAtHeight network (lib.firstRuneHeight network + chain.length)) tx.1 o →
      (Answers.only f).Tame lib (fun _ => False) (lib.firstRuneHeight network + chain.length)
        o := by
    intro tx htx o hasks
    obtain ⟨tx', htx', rfl⟩ := List.mem_map.mp htx
    exact hserves.spent _ b hb tx' htx' _ _ o hasks
  have hsafe := indexBlock_safe hlib ord hdistinct hans hwin.rowsBelow hflow (h.bounded hlib)
    h.paired hplaced
  have hf : ∀ q, Answers.only f q (f q) := fun _ => rfl
  obtain ⟨s', _, hrun⟩ := hsafe.returns (fun _ _ h => h.2) hf
  exact ⟨s', hrun⟩

/-! ### Whole iterations -/

/-- An iteration that gets a block. -/
theorem updateIndexIteration_fetched {ans : Answers} {ord : HashOrder} {subscribers : List Nat}
    {hash : BlockHash} {b : BlockData} {r : IndexResult Flow}
    (hhash : ans (.getBlockHash network (s.nextBlock lib network).1)
      (.ok (some hash) : Except Error (Option BlockHash)))
    (hblock : Proc.Runs ans ((RunesIndexer.getBlock lib hash).run s) (.ok s b))
    (hprocess : Proc.Runs ans ((processBlock lib ord network subscribers
      (s.nextBlock lib network).1 (s.nextBlock lib network).2 hash b).run s) r) :
    Proc.Runs ans ((updateIndexIteration lib ord network subscribers).run s) r := by
  unfold updateIndexIteration
  rw [gets, Async.runs_gets_bind]
  refine Proc.runs_bind.mpr (.inl ⟨s, .ok (some hash), .await hhash (.ok s _), ?_⟩)
  exact Proc.runs_bind.mpr (.inl ⟨s, .ok b, Async.runs_attempt.mpr (.inl ⟨b, rfl, hblock⟩),
    hprocess⟩)

/-- What an iteration does with a block that is indexed. -/
theorem processBlock_indexed {ord : HashOrder} {subscribers : List Nat} {height : Nat}
    {prev : Option BlockHash} {hash : BlockHash} {b : BlockData} (hflag : s.shuttingDown = false)
    (hdetect : Proc.Runs (Answers.only f) ((Reorg.detectReorg lib network prev
      b.header.prevBlockhash height).run s) (.ok s (.ok ())))
    (hindex : Proc.Runs (Answers.only f) ((RunesIndexer.indexBlock lib ord network height b).run s)
      (.ok s' ())) :
    Proc.Runs (Answers.only f)
      ((processBlock lib ord network subscribers height prev hash b).run s)
      (.ok (Reorg.pruneChangeRecord network height s') .rearm) := by
  have hflag' : (Reorg.pruneChangeRecord network height s').shuttingDown = false := by
    rw [Reorg.pruneChangeRecord_flag, (indexBlock_writes hindex).shuttingDown, hflag]
  refine Async.runs_bind_ok.mpr ⟨s, .ok (), hdetect, ?_⟩
  refine Async.runs_bind_ok.mpr ⟨s', .ok (), Async.runs_attempt.mpr (.inl ⟨(), rfl, hindex⟩), ?_⟩
  refine Async.runs_liftM_bind_ok.mpr ⟨_, (), rfl, ?_⟩
  exact Async.runs_bind_ok.mpr ⟨_, (), notifySubscribers_only _ _ _ _ _,
    rearmUnlessStopped_only hflag'⟩

/-- The next block of the node names the tip of its chain. -/
theorem Serves.detects (hserves : Serves lib network f served)
    (hchain : chain = (servedChain lib served).take chain.length) {b : Block}
    (hb : served[chain.length]? = some b) (height : Nat) (s : Store) :
    Proc.Runs (Answers.only f) ((Reorg.detectReorg lib network
      (chain.getLast?.map fun a => lib.blockHash a.header) b.header.prevBlockhash height).run s)
      (.ok s (.ok ())) := by
  unfold Reorg.detectReorg
  cases hlast : chain.getLast? with
  | none => exact Proc.Runs.ok s (Except.ok ())
  | some a =>
    have hlinked : Linked lib (chain ++ [BlockData.ofBlock lib b]) := by
      rw [concat_served hchain hb]
      exact hserves.linked.take _
    have hprev : b.header.prevBlockhash = lib.blockHash a.header :=
      (List.isChain_append.mp hlinked).2.2 a hlast _ rfl
    dsimp only [Option.map_some]
    rw [if_pos hprev.symm]
    exact Proc.Runs.ok s (Except.ok ())

/-- While the node is ahead, an iteration indexes its next block. -/
theorem Serves.advances (hlib : lib.Lawful) (hserves : Serves lib network f served)
    (h : Run lib network (fun _ => Answers.any) DistinctTxids chain s)
    (hchain : chain = (servedChain lib served).take chain.length)
    (hlt : chain.length < served.length) (i : HashOrder × List Nat) :
    ∃ s', IteratesTo lib network f i s s' ∧
      Run lib network (fun _ => Answers.any) DistinctTxids
        ((servedChain lib served).take (chain.length + 1)) s' := by
  obtain ⟨lo, hwin⟩ := h.window
  have hb := List.getElem?_eq_getElem hlt
  obtain ⟨s₁, hindex⟩ := hserves.indexBlock hlib h hchain hb i.1
  have hnext := hwin.nextBlock
  have hdetect := hserves.detects hchain hb (lib.firstRuneHeight network + chain.length) s
  refine ⟨Reorg.pruneChangeRecord network (lib.firstRuneHeight network + chain.length) s₁,
    updateIndexIteration_fetched (b := BlockData.ofBlock lib served[chain.length]) ?_
      (hserves.getBlock (List.getElem_mem hlt) s) ?_, ?_⟩
  · rw [hnext]
    exact (hserves.hash _ _ hb).symm
  · rw [hnext]
    exact processBlock_indexed h.flag hdetect hindex
  · -- the step that was executed is a step of a run
    have hrun : Run lib network (fun _ => Answers.any) DistinctTxids
        (chain ++ [BlockData.ofBlock lib served[chain.length]])
        (Reorg.pruneChangeRecord network (s.nextBlock lib network).1 s₁) := by
      have hadmitted : DistinctTxids (chain ++ [BlockData.ofBlock lib served[chain.length]]) := by
        rw [concat_served hchain hb]
        exact hserves.distinct.take _
      rw [← show (s.nextBlock lib network).1 = lib.firstRuneHeight network + chain.length by
        rw [hnext]] at hindex
      exact .index h hadmitted (hindex.mono fun _ _ _ => trivial)
    rw [hnext, concat_served hchain hb] at hrun
    exact hrun

/-- At the tip of the node an iteration changes nothing. -/
theorem Serves.waits (hserves : Serves lib network f served)
    (h : Run lib network (fun _ => Answers.any) DistinctTxids (servedChain lib served) s)
    (i : HashOrder × List Nat) : IteratesTo lib network f i s s := by
  obtain ⟨lo, hwin⟩ := h.window
  have hnext := hwin.nextBlock
  have htip : Answers.only f (.getBlockHash network (s.nextBlock lib network).1)
      (.ok none : Except Error (Option BlockHash)) := by
    rw [hnext, length_servedChain]
    exact hserves.tip.symm
  unfold IteratesTo updateIndexIteration
  rw [gets, Async.runs_gets_bind]
  exact Proc.runs_bind.mpr (.inl ⟨s, .ok none, .await htip (.ok s _), rearmUnlessStopped_only h.flag⟩)

/-! ### The rollback -/

/-- The search finds the highest block that the node still has. -/
theorem Forked.found {m : Nat} (hfork : Forked lib network served s chain m)
    (hserves : Serves lib network f served)
    (h : Run lib network (fun _ => Answers.any) DistinctTxids chain s)
    (hlt : m < chain.length) {tipHash prev : BlockHash} (hne : tipHash ≠ prev)
    {r : IndexResult (Except ReorgError Unit)}
    (hrun : Proc.Runs (Answers.only f) ((Reorg.detectReorg lib network (some tipHash) prev
      (lib.firstRuneHeight network + chain.length)).run s) r) :
    r = .ok s (.error (.recoverable (lib.firstRuneHeight network + chain.length)
      (chain.length - m + 1))) := by
  obtain ⟨lo, hwin⟩ := h.window
  obtain ⟨hpos, hstored⟩ := hfork.stored hlt
  have hahead := hfork.ahead hlt
  have hreach := hfork.reach
  have hfirst := hwin.first_le
  have hlo := ((hwin.mem_headers _).mp (FinMap.mem_keys.mpr hstored)).1
  -- what is stored at a height within the window, and what the node answers there
  have hat : ∀ i, m - 1 ≤ i → i < chain.length → ∃ a b, chain[i]? = some a ∧ served[i]? = some b ∧
      s.heightToBlockHeader.get? (lib.firstRuneHeight network + i) = some a.header ∧
      ∀ reply : Except Error (Option BlockHash),
        Answers.only f (.getBlockHash network (lib.firstRuneHeight network + i)) reply →
        reply = .ok (some (lib.blockHash b.header)) := by
    intro i hge hi
    have ha := List.getElem?_eq_getElem hi
    have hb := List.getElem?_eq_getElem (show i < served.length by omega)
    refine ⟨_, _, ha, hb, ?_, fun reply hreply => hreply.trans (hserves.hash i _ hb)⟩
    rw [hwin.headers, if_pos (by omega), Nat.add_sub_cancel_left, ha]
    rfl
  -- at the last shared block the hashes are the same
  have hcommon : ∀ a b, chain[m - 1]? = some a → served[m - 1]? = some b →
      lib.blockHash a.header = lib.blockHash b.header := by
    intro a b ha hb
    have htake := congrArg (fun l : List BlockData => l[m - 1]?) hfork.shared
    simp only [List.getElem?_take, if_pos (show m - 1 < m by omega)] at htake
    rw [ha, getElem?_servedChain, hb] at htake
    cases htake
    rfl
  obtain ⟨depth, x, rfl, hdepth, hfound, hreplaced⟩ := Reorg.detectReorg_found hne hrun
  -- the search does not pass the last shared block
  have hle : depth ≤ chain.length - m + 1 := by
    by_contra hgt
    obtain ⟨-, header, hash, hheader, hanswer, hother⟩ :=
      hreplaced (chain.length - m + 1) (by omega) (by omega)
    rw [show lib.firstRuneHeight network + chain.length - (chain.length - m + 1) =
      lib.firstRuneHeight network + (m - 1) by omega] at hheader hanswer
    obtain ⟨a, b, ha, hb, hat, hanswers⟩ := hat (m - 1) (le_refl _) (by omega)
    rw [hat] at hheader
    cases hheader
    rw [Option.some.inj (Except.ok.inj (hanswers _ hanswer))] at hother
    exact hother (hcommon a b ha hb)
  obtain ⟨a, b, ha, hb, hat, hanswers⟩ := hat (chain.length - depth) (by omega) (by omega)
  rw [show lib.firstRuneHeight network + (chain.length - depth) =
    lib.firstRuneHeight network + chain.length - depth by omega] at hat hanswers
  cases hfound with
  | exhausted hend =>
    rw [hat] at hend
    rcases hend with hend | hend | hend
    · omega
    · omega
    · cases hend
  | unanswered _ _ _ hanswer hno => exact absurd (hanswers _ hanswer) (hno _)
  | ancestor _ _ hheader hanswer =>
    rw [hat] at hheader
    cases hheader
    -- nor does it end before
    have hge : chain.length - m < depth := by
      by_contra hlt
      exact hfork.replaced _ a b (by omega) ha hb
        (Option.some.inj (Except.ok.inj (hanswers _ hanswer)))
    rw [show depth = chain.length - m + 1 by omega]

/-- When the node has replaced the last blocks, an iteration takes them back. -/
theorem Forked.rollsBack {m : Nat} (hfork : Forked lib network served s chain m)
    (hserves : Serves lib network f served)
    (h : Run lib network (fun _ => Answers.any) DistinctTxids chain s)
    (hlt : m < chain.length) (i : HashOrder × List Nat) :
    ∃ s', IteratesTo lib network f i s s' ∧
      Run lib network (fun _ => Answers.any) DistinctTxids ((servedChain lib served).take m) s' := by
  obtain ⟨lo, hwin⟩ := h.window
  have hahead := hfork.ahead hlt
  have hnext := hwin.nextBlock
  have hne : chain ≠ [] := fun hnil => by simp [hnil] at hlt
  rw [List.getLast?_eq_some_getLast hne] at hnext
  have hb := List.getElem?_eq_getElem hahead
  -- the tip is replaced, so the next block does not name it
  have hlink : lib.blockHash (chain.getLast hne).header ≠
      served[chain.length].header.prevBlockhash := by
    have hpos := List.length_pos_iff.mpr hne
    have hbelow := List.getElem?_eq_getElem (show chain.length - 1 < served.length by omega)
    have hprev : served[chain.length].header.prevBlockhash =
        lib.blockHash served[chain.length - 1].header := by
      refine hserves.linked.get (i := chain.length - 1)
        (a := BlockData.ofBlock lib served[chain.length - 1])
        (b := BlockData.ofBlock lib served[chain.length]) ?_ ?_
      · rw [getElem?_servedChain, hbelow]
        rfl
      · rw [Nat.sub_add_cancel hpos, getElem?_servedChain, hb]
        rfl
    rw [hprev]
    refine hfork.replaced (chain.length - 1) _ _ (by omega) ?_ hbelow
    rw [← List.getLast?_eq_some_getLast hne, List.getLast?_eq_getElem?]
  have hrun := runs_only f ((Reorg.detectReorg lib network
    (some (lib.blockHash (chain.getLast hne).header)) served[chain.length].header.prevBlockhash
    (lib.firstRuneHeight network + chain.length)).run s)
  rw [hfork.found hserves h hlt hlink hrun] at hrun
  have hdetect : Proc.Runs (Answers.only f) ((Reorg.detectReorg lib network
      (s.nextBlock lib network).2 served[chain.length].header.prevBlockhash
      (s.nextBlock lib network).1).run s) (.ok s (.error (.recoverable
        (lib.firstRuneHeight network + chain.length) (chain.length - m + 1)))) := by
    rw [hnext]
    exact hrun
  obtain ⟨_, fs, -, hJ⟩ := h.journaled (p := .entries) fun _ _ => ⟨nofun, nofun⟩
  obtain ⟨s', hundone, -⟩ := hJ.detected (fun _ _ => ⟨nofun, nofun⟩) hdetect i.1
  have hflag : s'.shuttingDown = false := by
    rw [Reorg.handleReorg_flag hundone, h.flag]
  refine ⟨s', updateIndexIteration_fetched (b := BlockData.ofBlock lib served[chain.length]) ?_
    (hserves.getBlock (List.getElem_mem hahead) s) ?_, ?_⟩
  · rw [hnext]
    exact (hserves.hash _ _ hb).symm
  · refine Async.runs_bind_ok.mpr ⟨s, _, hdetect, ?_⟩
    exact Async.runs_liftM_bind_ok.mpr ⟨s', (), hundone, rearmUnlessStopped_only hflag⟩
  · have hrolled := Run.reorg h (hdetect.mono fun _ _ _ => trivial) hundone
    rw [show chain.length - (chain.length - m + 1 - 1) = m by omega, hfork.shared] at hrolled
    exact hrolled

/-! ### Catching up -/

theorem iteratesTo_unique (i : HashOrder × List Nat) (s s₁ s₂ : Store)
    (h₁ : IteratesTo lib network f i s s₁) (h₂ : IteratesTo lib network f i s s₂) : s₁ = s₂ := by
  cases h₁.unique (Answers.only_functional f) h₂
  rfl

/-- What is held after some iterations, from `chain` on, of which the node has `m` blocks: the
    first one takes back what the node has replaced, if there is anything, and each other one
    adds a block. -/
def heldAfter (lib : Crates) (served : List Block) (chain : List BlockData) (m : Nat) :
    Nat → List BlockData
  | 0 => chain
  | n + 1 => (servedChain lib served).take (if m < chain.length then m + n else m + (n + 1))

/-- The iterations that it takes to get from `chain` to the node's chain. -/
def iterationsLeft (served : List Block) (chain : List BlockData) (m : Nat) : Nat :=
  served.length - m + if m < chain.length then 1 else 0

/-- From then on the node's chain is held. -/
theorem Forked.heldAfter_eq {m n : Nat} (hfork : Forked lib network served s chain m)
    (h : iterationsLeft served chain m ≤ n) :
    heldAfter lib served chain m n = servedChain lib served := by
  have hle := hfork.le
  have hshorter := hfork.shorter
  have hall : (servedChain lib served).length = served.length := length_servedChain
  unfold iterationsLeft at h
  cases n with
  | zero =>
    split at h
    · omega
    · have hshared := hfork.shared
      rw [List.take_of_length_le (by omega), List.take_of_length_le (by omega)] at hshared
      exact hshared
  | succ n =>
    rw [heldAfter]
    split at h
    · next hlt => rw [if_pos hlt, List.take_of_length_le (by omega)]
    · next hge => rw [if_neg hge, List.take_of_length_le (by omega)]

/-- From a state that holds the first `k` blocks of the node an iteration gets to one that holds
    another one, if there is one. -/
theorem Serves.iterates (hlib : lib.Lawful) (hserves : Serves lib network f served) (k : Nat)
    (s : Store) (i : HashOrder × List Nat)
    (h : Run lib network (fun _ => Answers.any) DistinctTxids ((servedChain lib served).take k) s) :
    ∃ s', IteratesTo lib network f i s s' ∧ Run lib network (fun _ => Answers.any) DistinctTxids
      ((servedChain lib served).take (k + 1)) s' := by
  have hall : (servedChain lib served).length = served.length := length_servedChain
  by_cases hlt : k < served.length
  · have hlen : ((servedChain lib served).take k).length = k :=
      List.length_take_of_le (by omega)
    obtain ⟨s', hstep, hrun⟩ := hserves.advances hlib h (by rw [hlen]) (by omega) i
    rw [hlen] at hrun
    exact ⟨s', hstep, hrun⟩
  · rw [List.take_of_length_le (by omega)] at h ⊢
    exact ⟨s, hserves.waits h i, h⟩

/-- From any state the loop gets to the node's chain, whatever the iteration orders and the
    subscribers are: by its first iteration it takes back what the node has replaced, with each
    other one it indexes one block, and once it holds the node's chain it stays there. -/
theorem Run.converges (hlib : lib.Lawful) (hserves : Serves lib network f served)
    (h : Run lib network (fun _ => Answers.any) DistinctTxids chain s) {m : Nat}
    (hfork : Forked lib network served s chain m) (l : List (HashOrder × List Nat)) :
    ∃ s', Steps (IteratesTo lib network f) l s s' ∧
      (∀ s'', Steps (IteratesTo lib network f) l s s'' → s'' = s') ∧
      Run lib network (fun _ => Answers.any) DistinctTxids
        (heldAfter lib served chain m l.length) s' ∧
      (iterationsLeft served chain m ≤ l.length →
        heldAfter lib served chain m l.length = servedChain lib served ∧
        ∀ l', Steps (IteratesTo lib network f) l' s' s' ∧
          ∀ s'', Steps (IteratesTo lib network f) l' s' s'' → s'' = s') := by
  have hgoal : ∃ s', Steps (IteratesTo lib network f) l s s' ∧
      Run lib network (fun _ => Answers.any) DistinctTxids
        (heldAfter lib served chain m l.length) s' := by
    have hle := hfork.le
    cases l with
    | nil => exact ⟨s, .nil s, h⟩
    | cons i l =>
      rw [List.length_cons, heldAfter]
      by_cases hlt : m < chain.length
      -- a rollback, then one block after the other
      · obtain ⟨s₁, hback, hrun⟩ := hfork.rollsBack hserves h hlt i
        obtain ⟨s', hsteps, hrun'⟩ := Steps.progress (hserves.iterates hlib) l hrun
        rw [if_pos hlt]
        exact ⟨s', .cons hback hsteps, hrun'⟩
      · have hshared := hfork.shared
        rw [List.take_of_length_le (by omega)] at hshared
        rw [hshared] at h
        rw [if_neg hlt]
        exact Steps.progress (hserves.iterates hlib) (i :: l) h
  obtain ⟨s', hsteps, hrun⟩ := hgoal
  refine ⟨s', hsteps, fun s'' h'' => Steps.unique iteratesTo_unique h'' hsteps, hrun,
    fun hdone => ⟨hfork.heldAfter_eq hdone, fun l' => ?_⟩⟩
  -- at the node's tip nothing changes
  rw [hfork.heldAfter_eq hdone] at hrun
  have hstays := Steps.stays (hserves.waits hrun) l'
  exact ⟨hstays, fun s'' h'' => Steps.unique iteratesTo_unique h'' hstays⟩

end

/-! ### A sample that catches up -/

namespace Sample

theorem serving_serves : Serves crates .regtest (serving servedBlocks) servedBlocks where
  linked := by
    unfold Linked
    decide
  distinct := by decide
  hash i b hb := by
    show (.ok ((servedBlocks[0 + i]?).map fun b => crates.blockHash b.header) :
      Except Error (Option BlockHash)) = _
    rw [Nat.zero_add, hb]
    rfl
  tip := rfl
  block b hb := by
    refine ⟨?_, rfl⟩
    simp only [servedBlocks, List.mem_cons, List.not_mem_nil, or_false] at hb
    rcases hb with rfl | rfl | rfl <;> rfl
  spent i b hb tx htx names minimum o hasks := by
    -- nothing is etched, so nothing is asked
    have hplain : ∀ b ∈ servedBlocks, ∀ tx ∈ b.txdata, crates.decipher tx = none := by
      intro b hb tx htx
      simp only [servedBlocks, List.mem_cons, List.not_mem_nil, or_false] at hb
      rcases hb with rfl | rfl | rfl <;> exact (List.mem_singleton.mp htx) ▸ rfl
    obtain ⟨artifact, _, hdecipher, -⟩ := hasks
    rw [hplain b (List.mem_of_getElem? hb) tx htx] at hdecipher
    cases hdecipher

/-- The loop that has indexed the replaced block. -/
theorem staleBlocks_run : ∃ s, Run crates .regtest (fun _ => Answers.any) DistinctTxids
    (servedChain crates staleBlocks) s ∧ (s.heightToBlockHeader.get? 0).isSome := by
  have hnode : ∀ (chain : List BlockData) q,
      (fun _ => Answers.any : Node) chain q (reply q) := fun _ _ => trivial
  have hadmits : ∀ n, DistinctTxids ([] ++ (servedChain crates staleBlocks).take (n + 1)) := by
    intro n
    rw [List.nil_append]
    exact DistinctTxids.take (by decide) (n + 1)
  obtain ⟨s, hs, hP⟩ := (Option.any_eq_true _ _).mp (show (indexChain crates order .regtest
    reply (servedChain crates staleBlocks) (Store.empty config)).any
    (fun s => (s.heightToBlockHeader.get? 0).isSome) = true by decide)
  exact ⟨s, run_of_indexChain hnode hadmits (.init config) hs, hP⟩

theorem staleBlocks_forked {s : Store} (h : (s.heightToBlockHeader.get? 0).isSome) :
    Forked crates .regtest servedBlocks s (servedChain crates staleBlocks) 1 where
  le := by decide
  shared := rfl
  shorter := by decide
  ahead _ := by decide
  stored _ := ⟨by decide, h⟩
  reach := by decide
  replaced i a b hi ha hb := by
    obtain ⟨hlt, -⟩ := List.getElem?_eq_some_iff.mp ha
    obtain rfl : i = 1 := by
      rw [length_servedChain, show staleBlocks.length = 2 from rfl] at hlt
      omega
    cases ha
    cases hb
    decide

end Sample

/-- A reorg and two blocks, iteration by iteration. -/
theorem Run.converges_sample :
    ∃ s, Run Sample.crates .regtest (fun _ => Answers.any) DistinctTxids
        (servedChain Sample.crates Sample.staleBlocks) s ∧
      ∀ l : List (HashOrder × List Nat), ∃ s',
        Steps (IteratesTo Sample.crates .regtest (Sample.serving Sample.servedBlocks)) l s s' ∧
        Run Sample.crates .regtest (fun _ => Answers.any) DistinctTxids
          (heldAfter Sample.crates Sample.servedBlocks
            (servedChain Sample.crates Sample.staleBlocks) 1 l.length) s' ∧
        (3 ≤ l.length → Run Sample.crates .regtest (fun _ => Answers.any) DistinctTxids
          (servedChain Sample.crates Sample.servedBlocks) s') := by
  obtain ⟨s, hrun, hstored⟩ := Sample.staleBlocks_run
  refine ⟨s, hrun, fun l => ?_⟩
  obtain ⟨s', hsteps, -, hrun', hdone⟩ := hrun.converges lawful_sample Sample.serving_serves
    (Sample.staleBlocks_forked hstored) l
  refine ⟨s', hsteps, hrun', fun hlen => ?_⟩
  obtain ⟨hheld, -⟩ := hdone hlen
  rw [hheld] at hrun'
  exact hrun'

end RunesIndexer
