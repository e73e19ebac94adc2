import RunesIndexer.Lib.Calls
import RunesIndexer.Spec.UndoWindow

/-! # The calls of an iteration

    What a completed iteration was told, what it did with it, and whom it told. The block
    that is indexed has the hash that was given for its height, and exactly the subscribers
    of the timer are notified of it, after it is indexed and of nothing else.
-/

namespace RunesIndexer

open Resumption

/-- The calls of an execution with their answers. -/
abbrev Calls : Type := List ((q : Call) × Reply q)

/-! ### Notifications -/

/-- What `notify_new_block` is called with. -/
structure Notification where
  subscriber : Nat
  height : Nat
  hash : BlockHash
  time : Nat
  txids : List Txid
  deriving DecidableEq

def Call.notification : Call → Option Notification
  | .newBlockDetected subscriber height hash time txids =>
    some ⟨subscriber, height, hash, time, txids⟩
  | .getBlockHash _ _ => none
  | .innerGetBlock _ => none
  | .getRawTransactionInfo _ => none
  | .getBlockHeaderInfo _ => none

/-- The notifications among the calls, in their order. -/
def notifications (l : Calls) : List Notification := l.filterMap fun x => x.1.notification

@[simp] theorem notifications_append (l₁ l₂ : Calls) :
    notifications (l₁ ++ l₂) = notifications l₁ ++ notifications l₂ := List.filterMap_append

/-- The call notifies nobody. -/
def Call.Silent (q : Call) : Prop := q.notification = none

theorem notifications_of_silent {l : Calls} (h : ∀ x ∈ l, x.1.Silent) : notifications l = [] :=
  List.filterMap_eq_nil_iff.mpr h

/-- The notification of a subscriber about a block. -/
def notificationOf (height : Nat) (hash : BlockHash) (b : BlockData) (subscriber : Nat) :
    Notification :=
  ⟨subscriber, height, hash, b.header.time, b.txids⟩

/-! ### The calls of the code -/

/-- The calls that fetch something are in `P`. -/
structure Fetches (network : BitcoinNetwork) (P : Call → Prop) : Prop where
  hash : ∀ height, P (.getBlockHash network height)
  block : ∀ hash, P (.innerGetBlock hash)
  transaction : ∀ txid, P (.getRawTransactionInfo txid)
  header : ∀ hash, P (.getBlockHeaderInfo hash)

theorem silent_fetches (network : BitcoinNetwork) : Fetches network Call.Silent :=
  ⟨fun _ => rfl, fun _ => rfl, fun _ => rfl, fun _ => rfl⟩

theorem rearmUnlessStopped_calls (P : Call → Prop) : rearmUnlessStopped.CallsOnly P :=
  .bind (.lift _) fun stopped => by cases stopped <;> exact .pure _

theorem notifySubscribers_calls {P : Call → Prop} (height : Nat) (hash : BlockHash) (b : BlockData)
    {subscribers : List Nat}
    (h : ∀ x ∈ subscribers, ∀ height hash time txids,
      P (.newBlockDetected x height hash time txids)) :
    (notifySubscribers height hash b subscribers).CallsOnly P := by
  induction subscribers with
  | nil => exact .pure ()
  | cons x rest ih =>
    exact .bind (.bind (.call (h x List.mem_cons_self _ _ _ _)) fun _ => .pure _) fun _ =>
      ih fun y hy => h y (List.mem_cons_of_mem x hy)

namespace Fetches

variable {network : BitcoinNetwork} {P : Call → Prop}

theorem txCommitsToRune (h : Fetches network P) (lib : Crates) (u : RuneUpdater)
    (tx : Transaction) (rune : Rune) :
    (RuneUpdater.txCommitsToRune lib u tx rune).CallsOnly P := by
  have hrules : RuneUpdater.CommitRules fun _ x => Async.CallsOnly P x :=
    { pure := fun a => .pure a
      bind := fun hx hf => .bind hx hf
      fail := fun _ => .lift _
      ofExcept := fun x => .ofExcept x
      transaction := fun txid => .bind (.call (h.transaction txid)) fun _ => .lift _
      header := fun hash => .bind (.call (h.header hash)) fun _ => .lift _ }
  exact hrules.txCommitsToRune lib u tx rune

theorem etched (h : Fetches network P) (lib : Crates) (u : RuneUpdater) (txIndex : Nat)
    (tx : Transaction) (artifact : Artifact) :
    (RuneUpdater.etched lib u txIndex tx artifact).CallsOnly P := by
  unfold RuneUpdater.etched
  split
  · exact .pure none
  · refine .bind (.lift _) fun taken => ?_
    split
    · exact .pure none
    · refine .bind (h.txCommitsToRune _ _ _ _) fun commits => ?_
      split
      · exact .pure _
      · exact .pure none
  · exact .bind (.lift _) fun _ => .bind (.lift _) fun _ => .pure _

theorem indexRunes (h : Fetches network P) (lib : Crates) (ord : HashOrder) (u : RuneUpdater)
    (txIndex : Nat) (tx : Transaction) (txid : Txid) :
    (u.indexRunes lib ord txIndex tx txid).CallsOnly P := by
  unfold RuneUpdater.indexRunes
  refine .bind (.lift _) fun x => .bind ?_ fun y => .lift _
  cases lib.decipher tx with
  | none => exact .pure _
  | some artifact =>
    refine .bind (.lift _) fun x => .bind (h.etched _ _ _ _ _) fun out => ?_
    refine .bind (.ofExcept _) fun y => ?_
    cases out with
    | none => exact .pure _
    | some pair => exact .bind (.lift _) fun _ => .pure _

theorem indexTransactions (h : Fetches network P) (lib : Crates) (ord : HashOrder)
    (l : List (Transaction × Txid)) (u : RuneUpdater) (n : Nat) :
    (RunesIndexer.indexTransactions lib ord u n l).CallsOnly P := by
  induction l generalizing u n with
  | nil => exact .pure u
  | cons e l ih => exact .bind (h.indexRunes _ _ _ _ _ _) fun u => ih u (n + 1)

theorem indexBlock (h : Fetches network P) (lib : Crates) (ord : HashOrder)
    (height : Nat) (b : BlockData) :
    (RunesIndexer.indexBlock lib ord network height b).CallsOnly P :=
  .bind (.lift _) fun _ => .bind (h.indexTransactions _ _ _ _ _) fun _ =>
    .bind (.lift _) fun _ => .lift _

theorem getBlock (h : Fetches network P) (lib : Crates) (hash : BlockHash) :
    (RunesIndexer.getBlock lib hash).CallsOnly P := by
  refine .bind (.call (h.block hash)) fun reply => .bind (.lift _) fun block => ?_
  split
  · exact .lift _
  · split
    · exact .pure _
    · exact .lift _

/-- By induction on the depths that are left. -/
theorem detectDepths (h : Fetches network P) (lib : Crates) (height : Nat) (l : List Nat) :
    (Reorg.detectDepths lib network height l).CallsOnly P := by
  induction l with
  | nil => exact .pure _
  | cons depth rest ih =>
    unfold Reorg.detectDepths
    split
    · exact .pure _
    · refine .bind (.lift _) fun hash => ?_
      split
      · exact .pure _
      · refine .bind (.call (h.hash _)) fun reply => ?_
        split
        · split
          · exact .pure _
          · exact ih
        · exact .pure _

theorem detectReorg (h : Fetches network P) (lib : Crates) (indexPrev : Option BlockHash)
    (bitcoindPrev : BlockHash) (height : Nat) :
    (Reorg.detectReorg lib network indexPrev bitcoindPrev height).CallsOnly P := by
  unfold Reorg.detectReorg
  split
  · split
    · exact .pure _
    · exact h.detectDepths _ _ _
  · exact .pure _

/-- The callback fetches and notifies its subscribers. -/
theorem updateIndexIteration (h : Fetches network P) (lib : Crates) (ord : HashOrder)
    {subscribers : List Nat}
    (hnotify : ∀ x ∈ subscribers, ∀ height hash time txids,
      P (.newBlockDetected x height hash time txids)) :
    (RunesIndexer.updateIndexIteration lib ord network subscribers).CallsOnly P := by
  have hrearm := rearmUnlessStopped_calls P
  refine .bind (.lift _) fun next => .bind (.call (h.hash _)) fun reply => ?_
  split
  · refine .bind (h.getBlock lib _).attempt fun block => ?_
    split
    · refine .bind (h.detectReorg _ _ _ _) fun reorg => ?_
      split
      · refine .bind (h.indexBlock _ _ _ _).attempt fun indexed => ?_
        split
        · exact .pure _
        · exact .bind (.lift _) fun _ =>
            .bind (notifySubscribers_calls _ _ _ hnotify) fun _ => hrearm
      · exact .bind (.lift _) fun _ => hrearm
      · exact .pure _
      · exact hrearm
    · exact hrearm
  · exact hrearm
  · exact hrearm

end Fetches

/-- The checks of `get_block` on what it was answered. -/
theorem getBlock_accepts {lib : Crates} {ans : Answers} {hash : BlockHash} {s s' : Store}
    {b : BlockData} (h : Proc.Runs ans ((getBlock lib hash).run s) (.ok s' b)) :
    ∃ block : Block, ans (.innerGetBlock hash) (.ok block : Except Error Block) ∧
      lib.blockHash block.header = hash ∧ lib.checkMerkleRoot block = true ∧
      b = BlockData.ofBlock lib block := by
  obtain ⟨s₁, reply, hcall, hchecks⟩ := Async.runs_bind_ok.mp h
  obtain ⟨answer, hans, hreturn⟩ := Proc.runs_await.mp hcall
  cases Proc.runs_ok.mp hreturn
  obtain ⟨s₂, block, hblock, hrest⟩ := Async.runs_liftM_bind_ok.mp hchecks
  cases reply with
  | error e => cases hblock
  | ok fetched =>
    cases hblock
    by_cases hhash : lib.blockHash block.header ≠ hash
    · rw [if_pos hhash] at hrest
      cases Proc.runs_err.mp hrest
    by_cases hroot : lib.checkMerkleRoot block = true
    · rw [if_neg hhash, if_pos hroot] at hrest
      cases Proc.runs_ok.mp hrest
      exact ⟨block, hans, not_not.mp hhash, hroot, rfl⟩
    · rw [if_neg hhash, if_neg hroot] at hrest
      cases Proc.runs_err.mp hrest

/-- The loop over the subscribers notifies each of them once, in order. -/
theorem notifySubscribers_via {ans : Answers} {height : Nat} {hash : BlockHash} {b : BlockData}
    {subscribers : List Nat} {l : Calls} {s s' : Store}
    (h : Proc.RunsVia ans ((notifySubscribers height hash b subscribers).run s) l (.ok s' ())) :
    notifications l = subscribers.map (notificationOf height hash b) := by
  induction subscribers generalizing l with
  | nil =>
    obtain ⟨rfl, -⟩ := Proc.runsVia_ok.mp h
    rfl
  | cons subscriber rest ih =>
    obtain ⟨reply, l', -, rfl, hrest⟩ := Proc.runsVia_await.mp h
    rw [List.map_cons, ← ih hrest]
    rfl

/-! ### An iteration -/

section

variable (lib : Crates) (ord : HashOrder) (network : BitcoinNetwork) (subscribers : List Nat)
  (ans : Answers) (s : Store)

/-- The block was fetched by the hash that was given for the next height. -/
structure Accepted (hash : BlockHash) (b : BlockData) : Prop where
  told : ans (.getBlockHash network (s.nextBlock lib network).1)
    (.ok (some hash) : Except Error (Option BlockHash))
  fetched : ∃ block : Block, ans (.innerGetBlock hash) (.ok block : Except Error Block) ∧
    lib.blockHash block.header = hash ∧ lib.checkMerkleRoot block = true ∧
    b = BlockData.ofBlock lib block

theorem Accepted.hash_eq {lib : Crates} {network : BitcoinNetwork} {ans : Answers} {s : Store}
    {hash : BlockHash} {b : BlockData} (h : Accepted lib network ans s hash b) :
    lib.blockHash b.header = hash := by
  obtain ⟨block, -, hhash, -, rfl⟩ := h.fetched
  exact hhash

/-- What a completed iteration did, and the notifications that it sent. -/
inductive Step : List Notification → Store → Flow → Prop
  | idle (flow : Flow) : Step [] s flow
  | indexed {hash : BlockHash} {b : BlockData} {s₁ : Store} (flow : Flow)
      (accepted : Accepted lib network ans s hash b)
      (link : (s.nextBlock lib network).2 = none ∨
        (s.nextBlock lib network).2 = some b.header.prevBlockhash)
      (run : Proc.Runs ans
        ((indexBlock lib ord network (s.nextBlock lib network).1 b).run s) (.ok s₁ ())) :
      Step (subscribers.map (notificationOf (s.nextBlock lib network).1 hash b))
        (Reorg.pruneChangeRecord network (s.nextBlock lib network).1 s₁) flow
  | failed {b : BlockData} {s₁ : Store} {e : Error}
      (run : Proc.Runs ans
        ((indexBlock lib ord network (s.nextBlock lib network).1 b).run s) (.err s₁ e)) :
      Step [] s₁ .indexFailed
  | rolledBack {hash : BlockHash} {b : BlockData} {height depth : Nat} {s₁ : Store} (flow : Flow)
      (accepted : Accepted lib network ans s hash b)
      (detected : Proc.Runs ans ((Reorg.detectReorg lib network (s.nextBlock lib network).2
        b.header.prevBlockhash (s.nextBlock lib network).1).run s)
        (.ok s (.error (.recoverable height depth))))
      (undone : (Reorg.handleReorg ord height depth).run s = .ok s₁ ()) :
      Step [] s₁ flow

end

section

variable {lib : Crates} {ord : HashOrder} {network : BitcoinNetwork} {subscribers : List Nat}
  {ans : Answers} {s s' : Store} {l : Calls} {flow : Flow}

/-- The calls after the block is there. -/
theorem processBlock_step {hash : BlockHash} {b : BlockData}
    (haccepted : Accepted lib network ans s hash b)
    (h : Proc.RunsVia ans ((processBlock lib ord network subscribers
      (s.nextBlock lib network).1 (s.nextBlock lib network).2 hash b).run s) l (.ok s' flow)) :
    Step lib ord network subscribers ans s (notifications l) s' flow := by
  unfold processBlock at h
  obtain ⟨l₁, l₂, s₁, reorg, rfl, hdetect, h⟩ := Async.runsVia_bind_ok.mp h
  obtain rfl := (Reorg.detectReorg_readOnly _ _ _ _ _).ok hdetect.runs
  rw [notifications_append,
    notifications_of_silent (((silent_fetches network).detectReorg _ _ _ _ _).via hdetect),
    List.nil_append]
  have hrearm : ∀ {l : Calls} {t t' : Store},
      Proc.RunsVia ans (rearmUnlessStopped.run t) l (.ok t' flow) → notifications l = [] ∧ t' = t :=
    fun hl => ⟨notifications_of_silent ((rearmUnlessStopped_calls _ _).via hl),
      rearmUnlessStopped_readOnly.ok hl.runs⟩
  cases reorg with
  | ok _ =>
    obtain ⟨-, hlink⟩ := Reorg.detectReorg_ok hdetect.runs
    obtain ⟨l₃, l₄, s₂, indexed, rfl, hindex, h⟩ := Async.runsVia_bind_ok.mp h
    -- `index_block` notifies nobody, so the calls are those of the loop over the subscribers
    have hsilent := notifications_of_silent
      ((((silent_fetches network).indexBlock _ _ _ _).attempt _).via hindex)
    rw [notifications_append, hsilent, List.nil_append]
    rcases Async.runsVia_attempt hindex with ⟨_, rfl, hrun⟩ | ⟨e, rfl, hrun⟩
    · obtain ⟨s₃, _, hprune, h⟩ := Async.runsVia_liftM_bind_ok.mp h
      cases hprune
      obtain ⟨l₅, l₆, s₄, _, rfl, hnotify, h⟩ := Async.runsVia_bind_ok.mp h
      obtain ⟨hnone, rfl⟩ := hrearm h
      obtain rfl := (notifySubscribers_readOnly _ _ _ _).ok hnotify.runs
      rw [notifications_append, hnone, List.append_nil, notifySubscribers_via hnotify]
      exact .indexed flow haccepted hlink hrun.runs
    · obtain ⟨rfl, hr⟩ := Proc.runsVia_ok.mp h
      cases hr
      exact .failed hrun.runs
  | error e =>
    cases e with
    | recoverable height depth =>
      obtain ⟨s₂, _, hundone, h⟩ := Async.runsVia_liftM_bind_ok.mp h
      obtain ⟨hnone, rfl⟩ := hrearm h
      rw [hnone]
      exact .rolledBack flow haccepted hdetect.runs hundone
    | unrecoverable =>
      obtain ⟨rfl, hr⟩ := Proc.runsVia_ok.mp h
      cases hr
      exact .idle _
    | retry =>
      obtain ⟨hnone, rfl⟩ := hrearm h
      rw [hnone]
      exact .idle flow

/-- An iteration by its calls. -/
theorem updateIndexIteration_step
    (h : Proc.RunsVia ans ((updateIndexIteration lib ord network subscribers).run s) l
      (.ok s' flow)) :
    Step lib ord network subscribers ans s (notifications l) s' flow := by
  -- every way of getting no block ends here
  have hidle : ∀ {l : Calls}, Proc.RunsVia ans (rearmUnlessStopped.run s) l (.ok s' flow) →
      Step lib ord network subscribers ans s (notifications l) s' flow := by
    intro l hl
    obtain rfl := rearmUnlessStopped_readOnly.ok hl.runs
    rw [notifications_of_silent ((rearmUnlessStopped_calls _ _).via hl)]
    exact .idle flow
  unfold updateIndexIteration at h
  obtain ⟨s₁, next, hnext, h⟩ := Async.runsVia_liftM_bind_ok.mp h
  cases hnext
  obtain ⟨reply, l₁, htold, rfl, hrest⟩ := Async.runsVia_call_bind_ok.mp h
  rw [show notifications (⟨.getBlockHash network _, reply⟩ :: l₁) = notifications l₁ from rfl]
  rcases reply with e | hash
  · exact hidle hrest
  · cases hash with
    | none => exact hidle hrest
    | some hash =>
      obtain ⟨l₂, l₃, s₂, block, rfl, hblock, h⟩ := Async.runsVia_bind_ok.mp hrest
      have hsilent := notifications_of_silent
        ((((silent_fetches network).getBlock lib hash).attempt _).via hblock)
      rw [notifications_append, hsilent, List.nil_append]
      rcases Async.runsVia_attempt hblock with ⟨b, rfl, hrun⟩ | ⟨e, rfl, hrun⟩
      · obtain rfl := (getBlock_readOnly _ _).ok hrun.runs
        obtain ⟨block, hfetched⟩ := getBlock_accepts hrun.runs
        exact processBlock_step ⟨htold, block, hfetched⟩ h
      · obtain rfl := (getBlock_readOnly _ _).err hrun.runs
        exact hidle h

end

/-! ### The held chain -/

/-- What a completed iteration does to the held chain, and whom it tells. -/
inductive Moved (lib : Crates) (network : BitcoinNetwork) (subscribers : List Nat) (ans : Answers)
    (chain : List BlockData) : List Notification → List BlockData → Prop
  | kept : Moved lib network subscribers ans chain [] chain
  | grown {b : BlockData}
      (told : ans (.getBlockHash network (lib.firstRuneHeight network + chain.length))
        (.ok (some (lib.blockHash b.header)) : Except Error (Option BlockHash)))
      (fetched : ∃ block : Block, ans (.innerGetBlock (lib.blockHash b.header))
        (.ok block : Except Error Block) ∧ lib.checkMerkleRoot block = true ∧
        b = BlockData.ofBlock lib block) :
      Moved lib network subscribers ans chain (subscribers.map (notificationOf
        (lib.firstRuneHeight network + chain.length) (lib.blockHash b.header) b)) (chain ++ [b])
  | shortened (n : Nat) : Moved lib network subscribers ans chain [] (chain.take n)

/-- An iteration that does not fail keeps the invariant and moves the chain. -/
theorem LoopInvariant.moves {lib : Crates} {ord : HashOrder} {network : BitcoinNetwork}
    {subscribers : List Nat} {ans : Answers} {top : Option Nat} {chain : List BlockData}
    {s s' : Store} {l : List Notification} {flow : Flow}
    (h : LoopInvariant lib network top chain s)
    (hstep : Step lib ord network subscribers ans s l s' flow) (hflow : flow ≠ .indexFailed) :
    ∃ chain', LoopInvariant lib network (top.merge max s'.memLatestBlockHeight) chain' s' ∧
      Moved lib network subscribers ans chain l chain' := by
  cases hstep with
  | idle _ =>
    -- nothing moved: the chain is shortened by nothing
    have hkept : LoopInvariant lib network (top.merge max s.memLatestBlockHeight)
        (chain.take chain.length) s := by
      refine h.shorten (fun hne => List.length_pos_iff.mpr hne) ?_
      rw [List.take_length]
      exact h.window
    rw [List.take_length] at hkept
    exact ⟨chain, hkept, .kept⟩
  | @indexed hash b s₁ _ haccepted hlink hrun =>
    refine ⟨_, h.extend hlink (hrun.mono fun _ _ _ => trivial), ?_⟩
    obtain ⟨block, hfetched, -, hroot, hb⟩ := haccepted.fetched
    have htold := haccepted.told
    rw [h.window.nextBlock] at htold ⊢
    rw [← haccepted.hash_eq] at htold hfetched ⊢
    exact .grown htold ⟨block, hfetched, hroot, hb⟩
  | failed _ => exact absurd rfl hflow
  | rolledBack _ _ hdetect hundone =>
    obtain ⟨-, hheight, hdepth, hle, hlo⟩ :=
      h.window.detected (hdetect.mono fun _ _ _ => trivial)
    have hfirst := h.window.first_le
    exact ⟨_, h.shorten (fun _ => by omega) (h.window.handleReorg hheight hdepth hle hlo hundone),
      .shortened _⟩

end RunesIndexer
