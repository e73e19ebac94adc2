import RunesIndexer.Spec.Window
import RunesIndexer.Model.Sample
import Mathlib.Order.Interval.Finset.Nat

/-! # The undo window of the loop

    Runs of the indexing loop against a node that may answer anything, and the
    shape of the maps by height after every iteration.
-/

namespace RunesIndexer

open Resumption

/-! ### One iteration -/

theorem getBlock_readOnly (lib : Crates) (hash : BlockHash) : (getBlock lib hash).ReadOnly := by
  refine .bind (.call _) fun reply => .bind (RuneUpdater.ofResult_oblivious _).readOnly fun block => ?_
  split
  · exact .fail _
  · split
    · exact .pure _
    · exact .fail _

theorem rearmUnlessStopped_readOnly : rearmUnlessStopped.ReadOnly :=
  .bind (.gets _) fun stopped => by cases stopped <;> exact .pure _

theorem notifySubscribers_readOnly (height : Nat) (hash : BlockHash) (block : BlockData)
    (l : List Nat) : (notifySubscribers height hash block l).ReadOnly := by
  induction l with
  | nil => exact .pure _
  | cons subscriber rest ih => exact .bind (.bind (.call _) fun _ => .pure _) fun _ => ih

/-- What a completed iteration did. -/
inductive Iteration (lib : Crates) (ord : HashOrder) (network : BitcoinNetwork) (s : Store) :
    Store → Flow → Prop
  | idle (flow : Flow) : Iteration lib ord network s s flow
  | indexed {b : BlockData} {s₁ : Store} (flow : Flow)
      (link : (s.nextBlock lib network).2 = none ∨
        (s.nextBlock lib network).2 = some b.header.prevBlockhash)
      (run : Proc.Runs Answers.any
        ((indexBlock lib ord network (s.nextBlock lib network).1 b).run s) (.ok s₁ ())) :
      Iteration lib ord network s
        (Reorg.pruneChangeRecord network (s.nextBlock lib network).1 s₁) flow
  | failed (s' : Store) : Iteration lib ord network s s' .indexFailed
  | rolledBack {prev : BlockHash} {height depth : Nat} {s' : Store} (flow : Flow)
      (detected : Proc.Runs Answers.any
        ((Reorg.detectReorg lib network (s.nextBlock lib network).2 prev
          (s.nextBlock lib network).1).run s) (.ok s (.error (.recoverable height depth))))
      (undone : (Reorg.handleReorg ord height depth).run s = .ok s' ()) :
      Iteration lib ord network s s' flow

theorem processBlock_runs {lib : Crates} {ord : HashOrder} {network : BitcoinNetwork}
    {subscribers : List Nat} {hash : BlockHash} {b : BlockData} {s s' : Store} {flow : Flow}
    (h : Proc.Runs Answers.any ((processBlock lib ord network subscribers
      (s.nextBlock lib network).1 (s.nextBlock lib network).2 hash b).run s) (.ok s' flow)) :
    Iteration lib ord network s s' flow := by
  unfold processBlock at h
  obtain ⟨s₁, reorg, hdetect, h⟩ := Async.runs_bind_ok.mp h
  have hs₁ := (Reorg.detectReorg_readOnly _ _ _ _ _).ok hdetect
  subst hs₁
  -- only a block that links to the tip is indexed, and only a reorg in reach is undone
  cases reorg with
  | ok _ =>
    obtain ⟨-, hlink⟩ := Reorg.detectReorg_ok hdetect
    obtain ⟨s₂, indexed, hindex, h⟩ := Async.runs_bind_ok.mp h
    rcases Async.runs_attempt.mp hindex with ⟨_, rfl, hrun⟩ | ⟨e, rfl, hrun⟩
    · obtain ⟨s₃, _, hprune, h⟩ := Async.runs_liftM_bind_ok.mp h
      cases hprune
      obtain ⟨s₄, _, hnotify, h⟩ := Async.runs_bind_ok.mp h
      rw [(notifySubscribers_readOnly _ _ _ _).ok hnotify] at h
      rw [rearmUnlessStopped_readOnly.ok h]
      exact .indexed flow hlink hrun
    · cases Proc.runs_ok.mp h
      exact .failed _
  | error e =>
    cases e with
    | recoverable height depth =>
      obtain ⟨s₂, _, hundone, h⟩ := Async.runs_liftM_bind_ok.mp h
      rw [rearmUnlessStopped_readOnly.ok h]
      exact .rolledBack flow hdetect hundone
    | unrecoverable =>
      cases Proc.runs_ok.mp h
      exact .idle _
    | retry =>
      rw [rearmUnlessStopped_readOnly.ok h]
      exact .idle flow

theorem updateIndexIteration_runs {lib : Crates} {ord : HashOrder} {network : BitcoinNetwork}
    {subscribers : List Nat} {s s' : Store} {flow : Flow}
    (h : Proc.Runs Answers.any ((updateIndexIteration lib ord network subscribers).run s)
      (.ok s' flow)) : Iteration lib ord network s s' flow := by
  -- every way of getting no block ends here
  have hidle : ∀ {s₁ : Store}, s₁ = s →
      Proc.Runs Answers.any (rearmUnlessStopped.run s₁) (.ok s' flow) →
      Iteration lib ord network s s' flow := by
    rintro s₁ rfl h
    rw [rearmUnlessStopped_readOnly.ok h]
    exact .idle flow
  unfold updateIndexIteration at h
  obtain ⟨s₁, next, hnext, h⟩ := Async.runs_liftM_bind_ok.mp h
  cases hnext
  obtain ⟨s₂, reply, hhash, h⟩ := Async.runs_bind_ok.mp h
  have hs₂ := (Async.ReadOnly.call _).ok hhash
  cases reply with
  | error e => exact hidle hs₂ h
  | ok hash =>
    cases hash with
    | none => exact hidle hs₂ h
    | some hash =>
      obtain ⟨s₃, block, hblock, h⟩ := Async.runs_bind_ok.mp h
      rcases Async.runs_attempt.mp hblock with ⟨b, rfl, hrun⟩ | ⟨e, rfl, hrun⟩
      · have hs₃ := (getBlock_readOnly _ _).ok hrun
        rw [hs₃, hs₂] at h
        exact processBlock_runs h
      · have hs₃ := (getBlock_readOnly _ _).err hrun
        exact hidle (hs₃.trans hs₂) h

/-! ### Runs of the loop -/

/-- Runs of a single loop in which no started `index_block` failed; the number is the
    greatest height indexed so far. Between iterations a controller may set the
    stop flag and the configuration; a change of the flag during an iteration acts
    as one right before its last read. -/
inductive LoopRun (lib : Crates) (network : BitcoinNetwork) : Option Nat → Store → Prop
  | init (config : Config) : LoopRun lib network none (Store.empty config)
  | control {top : Option Nat} {s : Store} (config : Config) (flag : Bool)
      (run : LoopRun lib network top s) :
      LoopRun lib network top { s with config := config, shuttingDown := flag }
  | iteration {top : Option Nat} {s s' : Store} {ord : HashOrder} {subscribers : List Nat}
      {flow : Flow} (run : LoopRun lib network top s)
      (step : Proc.Runs Answers.any ((updateIndexIteration lib ord network subscribers).run s)
        (.ok s' flow))
      (indexed : flow ≠ .indexFailed) :
      LoopRun lib network (top.merge max s'.memLatestBlockHeight) s'

/-- Each block names the hash of the one before it. -/
def Linked (lib : Crates) (chain : List BlockData) : Prop :=
  chain.IsChain fun a b => b.header.prevBlockhash = lib.blockHash a.header

/-- The start of the window after the greatest height `top`. -/
def windowStart (lib : Crates) (network : BitcoinNetwork) (top : Nat) : Nat :=
  max (lib.firstRuneHeight network) (top + 1 - Store.getMaxRecoverableReorgDepth network)

/-- What the loop keeps: a linked chain in the window that its greatest height sets. -/
structure LoopInvariant (lib : Crates) (network : BitcoinNetwork) (top : Option Nat)
    (chain : List BlockData) (s : Store) : Prop where
  linked : Linked lib chain
  window : Window lib network
    (top.elim (lib.firstRuneHeight network) (windowStart lib network)) chain s
  started : top = none ↔ chain = []
  tip_le : ∀ t, top = some t → lib.firstRuneHeight network + (chain.length - 1) ≤ t

theorem linked_append {lib : Crates} {chain : List BlockData} {b : BlockData}
    (h : Linked lib chain)
    (hb : ∀ a, chain.getLast? = some a → b.header.prevBlockhash = lib.blockHash a.header) :
    Linked lib (chain ++ [b]) := by
  refine List.isChain_append.mpr ⟨h, List.isChain_singleton b, ?_⟩
  intro a ha b' hb'
  rw [List.head?_cons, Option.mem_some_iff] at hb'
  subst hb'
  exact hb a ha

theorem Linked.get {lib : Crates} {chain : List BlockData} (h : Linked lib chain) {i : Nat}
    {a b : BlockData} (ha : chain[i]? = some a) (hb : chain[i + 1]? = some b) :
    b.header.prevBlockhash = lib.blockHash a.header := by
  obtain ⟨hi, rfl⟩ := List.getElem?_eq_some_iff.mp ha
  obtain ⟨hi', rfl⟩ := List.getElem?_eq_some_iff.mp hb
  exact List.isChain_iff_getElem.mp h i hi'

namespace LoopInvariant

variable {lib : Crates} {network : BitcoinNetwork} {top : Option Nat} {chain : List BlockData}
  {s s' : Store}

theorem init (lib : Crates) (network : BitcoinNetwork) (config : Config) :
    LoopInvariant lib network none [] (Store.empty config) where
  linked := List.isChain_nil
  window := Window.empty lib network config
  started := by simp
  tip_le := nofun

theorem control (h : LoopInvariant lib network top chain s) (config : Config) (flag : Bool) :
    LoopInvariant lib network top chain { s with config := config, shuttingDown := flag } :=
  ⟨h.linked, h.window.control config flag, h.started, h.tip_le⟩

/-- A shorter chain in the same window, of which at least a block is left. -/
theorem shorten (h : LoopInvariant lib network top chain s) {n : Nat}
    (hn : chain ≠ [] → 0 < n)
    (hwin : Window lib network
      (top.elim (lib.firstRuneHeight network) (windowStart lib network)) (chain.take n) s') :
    LoopInvariant lib network (top.merge max s'.memLatestBlockHeight) (chain.take n) s' := by
  have hlatest := hwin.latestHeight
  have hempty : chain.take n = [] ↔ chain = [] := by
    rw [List.take_eq_nil_iff]
    constructor
    · rintro (hn0 | h0)
      · by_contra hne
        have := hn hne
        omega
      · exact h0
    · exact .inr
  -- the highest tip so far is at least any shorter one
  have htop : top.merge max s'.memLatestBlockHeight = top := by
    rw [hlatest]
    cases htop : top with
    | none => rw [if_pos (hempty.mpr (h.started.mp htop))]; rfl
    | some t =>
      split
      · rfl
      · have := h.tip_le t htop
        have hlen := List.length_take_le' n chain
        rw [Option.merge_some_some, Option.some.injEq]
        omega
  rw [htop]
  refine ⟨h.linked.take n, hwin, h.started.trans hempty.symm, fun t ht => ?_⟩
  have := h.tip_le t ht
  have := List.length_take_le' n chain
  omega

/-- A new block at the tip. -/
theorem extend (h : LoopInvariant lib network top chain s) {ord : HashOrder} {b : BlockData}
    {s₁ : Store}
    (hlink : (s.nextBlock lib network).2 = none ∨
      (s.nextBlock lib network).2 = some b.header.prevBlockhash)
    (hrun : Proc.Runs Answers.any
      ((indexBlock lib ord network (s.nextBlock lib network).1 b).run s) (.ok s₁ ())) :
    LoopInvariant lib network
      (top.merge max
        (Reorg.pruneChangeRecord network (s.nextBlock lib network).1 s₁).memLatestBlockHeight)
      (chain ++ [b]) (Reorg.pruneChangeRecord network (s.nextBlock lib network).1 s₁) := by
  have hnext := h.window.nextBlock
  rw [hnext] at hlink hrun ⊢
  -- the block adds a height at the top, pruning drops those out of reach
  have hwin := (h.window.index (indexBlock_writes hrun)).prune (by simp)
  simp only [List.length_append, List.length_singleton, Nat.add_sub_cancel] at hwin
  have hlatest := hwin.latestHeight
  rw [if_neg (by simp), List.length_append, List.length_singleton, Nat.add_sub_cancel] at hlatest
  rw [hlatest]
  refine ⟨linked_append h.linked fun a ha => ?_, ?_, by cases top <;> simp, fun t ht => ?_⟩
  · rw [ha] at hlink
    rcases hlink with hlink | hlink
    · cases hlink
    · exact (Option.some.inj hlink).symm
  · cases htop : top with
    | none =>
      rw [htop] at hwin
      exact hwin
    | some t =>
      rw [htop] at hwin
      have hlo : max (windowStart lib network t) (lib.firstRuneHeight network +
          (chain.length + 1) - Store.getMaxRecoverableReorgDepth network) =
          windowStart lib network (max t (lib.firstRuneHeight network + chain.length)) := by
        unfold windowStart
        omega
      rw [Option.merge_some_some, Option.elim_some, ← hlo]
      exact hwin
  · rw [List.length_append, List.length_singleton, Nat.add_sub_cancel]
    cases top with
    | none =>
      cases ht
      exact le_refl _
    | some t₀ =>
      cases ht
      exact le_max_right _ _

/-- An iteration keeps the invariant, for the chain that it leaves. -/
theorem iteration (h : LoopInvariant lib network top chain s) {ord : HashOrder} {flow : Flow}
    (hstep : Iteration lib ord network s s' flow) (hflow : flow ≠ .indexFailed) :
    ∃ chain', LoopInvariant lib network (top.merge max s'.memLatestBlockHeight) chain' s' := by
  cases hstep with
  | idle _ =>
    refine ⟨chain.take chain.length, h.shorten (fun hne => List.length_pos_iff.mpr hne) ?_⟩
    rw [List.take_length]
    exact h.window
  | indexed _ hlink hrun => exact ⟨_, h.extend hlink hrun⟩
  | failed _ => exact absurd rfl hflow
  | rolledBack _ hdetect hundone =>
    obtain ⟨-, hheight, hdepth, hle, hlo⟩ := h.window.detected hdetect
    have hfirst := h.window.first_le
    exact ⟨_, h.shorten (fun _ => by omega) (h.window.handleReorg hheight hdepth hle hlo hundone)⟩

end LoopInvariant

theorem loopRun_invariant {lib : Crates} {network : BitcoinNetwork} {top : Option Nat} {s : Store}
    (h : LoopRun lib network top s) : ∃ chain, LoopInvariant lib network top chain s := by
  induction h with
  | init config => exact ⟨[], .init lib network config⟩
  | control config flag run ih =>
    obtain ⟨chain, hinv⟩ := ih
    exact ⟨chain, hinv.control config flag⟩
  | iteration run step indexed ih =>
    obtain ⟨chain, hinv⟩ := ih
    exact hinv.iteration (updateIndexIteration_runs step) indexed

/-- The window of the loop: after every iteration that leaves a block indexed, the four
    maps by height hold exactly the heights from the window's start to the tip, the
    headers are linked, and every height that a rollback would undo has its record. -/
theorem loopRun_undoWindow {lib : Crates} {network : BitcoinNetwork} {top : Option Nat}
    {s : Store} {tip : Nat} (hrun : LoopRun lib network top s)
    (htip : s.memLatestBlockHeight = some tip) :
    ∃ greatest, top = some greatest ∧ tip ≤ greatest ∧
      windowStart lib network greatest ≤ tip ∧
      s.heightToBlockHeader.keys = Finset.Icc (windowStart lib network greatest) tip ∧
      s.heightToChangeRecord.keys = Finset.Icc (windowStart lib network greatest) tip ∧
      s.heightToStatisticRunes.keys = Finset.Icc (windowStart lib network greatest) tip ∧
      s.heightToStatisticReservedRunes.keys = Finset.Icc (windowStart lib network greatest) tip ∧
      (∀ h a b, s.heightToBlockHeader.get? h = some a →
        s.heightToBlockHeader.get? (h + 1) = some b → b.prevBlockhash = lib.blockHash a) ∧
      ∀ ans prev s' height depth,
        Proc.Runs ans ((Reorg.detectReorg lib network (s.nextBlock lib network).2 prev
          (s.nextBlock lib network).1).run s) (.ok s' (.error (.recoverable height depth))) →
        ∀ h ∈ Reorg.rolledBack height depth, h ∈ s.heightToChangeRecord.keys := by
  obtain ⟨chain, hinv⟩ := loopRun_invariant hrun
  have hwin := hinv.window
  have hlatest := hwin.latestHeight
  rw [htip] at hlatest
  split at hlatest
  · cases hlatest
  · next hne =>
    have htip := Option.some.inj hlatest
    have hlen := List.length_pos_iff.mpr hne
    cases htop : top with
    | none => exact absurd (hinv.started.mp htop) hne
    | some greatest =>
      rw [htop] at hwin
      have hle := hinv.tip_le greatest htop
      have hlo : windowStart lib network greatest ≤
        lib.firstRuneHeight network + (chain.length - 1) := hwin.lo_le
      -- all four rows have the heights of the window
      have hicc : ∀ keys : Finset Nat,
          (∀ k, k ∈ keys ↔ windowStart lib network greatest ≤ k ∧
            k < lib.firstRuneHeight network + chain.length) →
          keys = Finset.Icc (windowStart lib network greatest) tip := by
        intro keys hkeys
        ext k
        rw [hkeys, Finset.mem_Icc]
        omega
      refine ⟨greatest, rfl, by omega, by omega, hicc _ hwin.mem_headers, hicc _ hwin.records,
        hicc _ hwin.runeRows, hicc _ hwin.reservedRows, fun h a b ha hb => ?_,
        fun ans prev s' height depth hdetect h hmem => ?_⟩
      · have hfirst : lib.firstRuneHeight network ≤ windowStart lib network greatest :=
          hwin.first_le
        rw [hwin.headers, Option.ite_none_right_eq_some, Option.elim_some] at ha hb
        obtain ⟨hle, ha⟩ := ha
        obtain ⟨-, hb⟩ := hb
        rw [show h + 1 - lib.firstRuneHeight network = h - lib.firstRuneHeight network + 1 by
          omega] at hb
        obtain ⟨x, hx, rfl⟩ := Option.map_eq_some_iff.mp ha
        obtain ⟨y, hy, rfl⟩ := Option.map_eq_some_iff.mp hb
        exact hinv.linked.get hx hy
      · obtain ⟨-, hheight, hdepth, hle, hlo⟩ := hwin.detected hdetect
        rw [Reorg.mem_rolledBack hle] at hmem
        exact (hwin.records h).mpr (by omega)

/-! ### Executing the loop -/

/-- Iterations of the loop from a greatest height and a state, the calls answered by `f`. -/
def loopExec (lib : Crates) (ord : HashOrder) (network : BitcoinNetwork)
    (f : (q : Call) → Reply q) : Nat → Option Nat × Store → Option (Option Nat × Store)
  | 0, x => some x
  | n + 1, (top, s) =>
    match ((updateIndexIteration lib ord network []).run s).resultWith f with
    | .ok s' flow =>
      if flow = .indexFailed then none
      else loopExec lib ord network f n (top.merge max s'.memLatestBlockHeight, s')
    | .err _ _ => none
    | .trap _ => none

theorem loopRun_of_loopExec {lib : Crates} {ord : HashOrder} {network : BitcoinNetwork}
    {f : (q : Call) → Reply q} {n : Nat} {top top' : Option Nat} {s s' : Store}
    (h : LoopRun lib network top s)
    (hexec : loopExec lib ord network f n (top, s) = some (top', s')) :
    LoopRun lib network top' s' := by
  induction n generalizing top s with
  | zero =>
    cases hexec
    exact h
  | succ n ih =>
    unfold loopExec at hexec
    split at hexec
    · next s₁ flow hresult =>
      split at hexec
      · cases hexec
      · next hflow =>
        have hany : ∀ q, Answers.any q (f q) := fun _ => trivial
        have hruns := Proc.runs_resultWith hany
          ((updateIndexIteration lib ord network []).run s)
        rw [hresult] at hruns
        exact ih (.iteration h hruns hflow) hexec
    · cases hexec
    · cases hexec

namespace Sample

/-- The node replaces the last of eight blocks ... -/
def replacedOnce : List Block :=
  (List.range 7).map minedBlock ++ [plainBlock 7 107 0, plainBlock 107 108 0]

/-- ... and then two more. -/
def replacedTwice : List Block :=
  (List.range 5).map minedBlock ++
    [plainBlock 5 205 0, plainBlock 205 206 0, plainBlock 206 207 0]

/-- The loop indexes eight blocks and takes back the last one. -/
def looped : Option (Option Nat × Store) :=
  (loopExec crates order .regtest reply 8 (none, Store.empty config)).bind
    (loopExec crates order .regtest (serving replacedOnce) 1)

end Sample

/-- Six of eight blocks are left in the window, five of them after a rollback; another one finds
    the records that it needs. -/
theorem loopRun_undoWindow_sample :
    ∃ s, LoopRun Sample.crates .regtest (some 7) s ∧ s.memLatestBlockHeight = some 6 ∧
      s.heightToBlockHeader.keys = Finset.Icc 2 6 ∧ s.heightToChangeRecord.keys = Finset.Icc 2 6 ∧
      (∃ s', Proc.Runs Answers.any ((Reorg.detectReorg Sample.crates .regtest
        (s.nextBlock Sample.crates .regtest).2 206 (s.nextBlock Sample.crates .regtest).1).run s)
        (.ok s' (.error (.recoverable 7 3)))) ∧
      ∀ h ∈ Reorg.rolledBack 7 3, h ∈ s.heightToChangeRecord.keys := by
  obtain ⟨⟨top, s⟩, hexec, hP⟩ := (Option.any_eq_true _ _).mp
    (show Sample.looped.any (fun x => x.1 = some 7 ∧ x.2.memLatestBlockHeight = some 6 ∧
      Result.returns (fun _ y => Sample.asksFor 7 3 y)
        (Proc.resultWith (Sample.serving Sample.replacedTwice) ((Reorg.detectReorg Sample.crates
          .regtest (x.2.nextBlock Sample.crates .regtest).2 206
          (x.2.nextBlock Sample.crates .regtest).1).run x.2))) = true by decide +kernel)
  obtain ⟨rfl, htip, hreturns⟩ := of_decide_eq_true hP
  obtain ⟨⟨top₁, s₁⟩, hindexed, hundone⟩ := Option.bind_eq_some_iff.mp hexec
  have hrun : LoopRun Sample.crates .regtest (some 7) s :=
    loopRun_of_loopExec (loopRun_of_loopExec (.init Sample.config) hindexed) hundone
  obtain ⟨s', y, hresult, hy⟩ := Result.returns_iff.mp hreturns
  obtain rfl := Sample.asksFor_iff.mp hy
  have hany : ∀ q, Answers.any q (Sample.serving Sample.replacedTwice q) := fun _ => trivial
  have hdetect := Proc.runs_resultWith hany ((Reorg.detectReorg Sample.crates .regtest
    (s.nextBlock Sample.crates .regtest).2 206 (s.nextBlock Sample.crates .regtest).1).run s)
  rw [hresult] at hdetect
  obtain ⟨greatest, hgreatest, -, -, hheaders, hrecords, -, -, -, hfound⟩ :=
    loopRun_undoWindow hrun htip
  cases hgreatest
  exact ⟨s, hrun, htip, hheaders, hrecords, ⟨s', hdetect⟩, hfound _ _ _ _ _ hdetect⟩

end RunesIndexer
