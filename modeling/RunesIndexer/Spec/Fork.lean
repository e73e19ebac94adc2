import RunesIndexer.Lib.HashChain
import RunesIndexer.Spec.Authentic
import RunesIndexer.Spec.History
import RunesIndexer.Spec.Iteration

/-! # Where two chains fork

    The loop against a node that follows one hash-linked chain. `detect_reorg` walks
    down from the tip until a stored header is on the node's chain; what it finds is
    the fork point, and `handle_reorg` goes back to it.
-/

namespace RunesIndexer

open Resumption Journal

/-- A chain of block headers from the genesis block on. -/
abbrev NodeChain (lib : Crates) : Type := HashChain lib.blockHash Header.prevBlockhash

/-- The node answers with hashes of its chain, or not at all. -/
def Answers.Follows (ans : Answers) {lib : Crates} (network : BitcoinNetwork)
    (node : NodeChain lib) : Prop :=
  ∀ height hash, ans (.getBlockHash network height)
    (.ok (some hash) : Except Error (Option BlockHash)) →
    ∃ header, node.headerAt height = some header ∧ lib.blockHash header = hash

/-! ### The states of the loop -/

/-- Every state of the loop is that of a replay of the chain it holds, as far as entries and
    counters go. -/
theorem loopRun_journaled {lib : Crates} {network : BitcoinNetwork} {top : Option Nat} {s : Store}
    (h : LoopRun lib network top s) :
    ∃ lo fs, LoopInvariant lib network top (items fs) s ∧
      Journaled lib network (fun _ => Answers.any) (fun _ => True) .entries lo fs s := by
  induction h with
  | init config => exact ⟨_, [], .init lib network config, .init config⟩
  | control config flag run ih =>
    obtain ⟨lo, fs, hinv, hJ⟩ := ih
    exact ⟨lo, fs, hinv.control config flag, hJ.replay, hJ.now, hJ.window.control config flag,
      hJ.log⟩
  | @iteration top s s' ord subscribers flow run step indexed ih =>
    -- the window and the records follow one another, so one chain serves both
    obtain ⟨lo, fs, hinv, hJ⟩ := ih
    cases updateIndexIteration_runs step with
    | idle _ =>
      refine ⟨lo, fs, ?_, hJ⟩
      have hshort := hinv.shorten (n := (items fs).length)
        (fun hne => List.length_pos_iff.mpr hne) (by rw [List.take_length]; exact hinv.window)
      rw [List.take_length] at hshort
      exact hshort
    | @indexed b s₁ _ hlink hrun =>
      obtain ⟨lo', r, hJ'⟩ := hJ.index (b := b) trivial hrun
      refine ⟨lo', _, ?_, hJ'⟩
      rw [items_cons]
      exact hinv.extend hlink hrun
    | failed _ => exact absurd rfl indexed
    | rolledBack _ hdetect hundone =>
      obtain ⟨-, hheight, hdepth, hle, hlo⟩ := hinv.window.detected hdetect
      obtain ⟨s'', hrun, hJ'⟩ := hJ.detected (fun _ _ => ⟨nofun, nofun⟩) hdetect ord
      rw [hundone] at hrun
      cases hrun
      have hfirst := hinv.window.first_le
      refine ⟨lo, _, ?_, hJ'⟩
      rw [items_drop, ← length_items]
      rename_i depth _ _
      exact hinv.shorten (fun _ => by omega)
        (hinv.window.handleReorg hheight hdepth hle hlo hundone)

/-- The stored headers are a segment of a chain. -/
theorem LoopInvariant.segment {lib : Crates} {network : BitcoinNetwork} {top : Option Nat}
    {chain : List BlockData} {s : Store} (h : LoopInvariant lib network top chain s) :
    Segment lib.blockHash Header.prevBlockhash s.heightToBlockHeader.get? where
  linked k a b ha hb := by
    have hfirst := h.window.first_le
    rw [h.window.headers, Option.ite_none_right_eq_some] at ha hb
    obtain ⟨hlo, ha⟩ := ha
    obtain ⟨-, hb⟩ := hb
    rw [show k + 1 - lib.firstRuneHeight network = k - lib.firstRuneHeight network + 1 by
      omega] at hb
    obtain ⟨x, hx, rfl⟩ := Option.map_eq_some_iff.mp ha
    obtain ⟨y, hy, rfl⟩ := Option.map_eq_some_iff.mp hb
    exact h.linked.get hx hy
  gapless i j k hij hjk hi hk := by
    have hi' := (h.window.mem_headers i).mp (FinMap.mem_keys.mpr hi)
    have hk' := (h.window.mem_headers k).mp (FinMap.mem_keys.mpr hk)
    exact FinMap.mem_keys.mp ((h.window.mem_headers j).mpr (by omega))

/-! ### The search for a common block -/

namespace Reorg

section search

variable (lib : Crates) (network : BitcoinNetwork) (ans : Answers) (s : Store) (height : Nat)

/-- The node has another block than the one stored `depth` below `height`. -/
structure Replaced (depth : Nat) : Prop where
  le : depth ≤ height
  other : ∃ header hash, s.heightToBlockHeader.get? (height - depth) = some header ∧
    ans (.getBlockHash network (height - depth))
      (.ok (some hash) : Except Error (Option BlockHash)) ∧ lib.blockHash header ≠ hash

/-- How the search ends at `depth` when `last` is the depth it would not try any more. -/
inductive Found (last depth : Nat) : Except ReorgError Unit → Prop
  /-- The node has the block that is stored there. -/
  | ancestor {header : Header} (hlt : depth < last) (hle : depth ≤ height)
      (hstored : s.heightToBlockHeader.get? (height - depth) = some header)
      (hnode : ans (.getBlockHash network (height - depth))
        (.ok (some (lib.blockHash header)) : Except Error (Option BlockHash))) :
      Found last depth (.error (.recoverable height depth))
  /-- Nothing is left to try, or to compare with. -/
  | exhausted (hend : depth = last ∨ height < depth ∨
      s.heightToBlockHeader.get? (height - depth) = none) :
      Found last depth (.error .unrecoverable)
  /-- The node did not answer with a hash. -/
  | unanswered {reply : Except Error (Option BlockHash)} (hlt : depth < last)
      (hle : depth ≤ height) (hstored : (s.heightToBlockHeader.get? (height - depth)).isSome)
      (hnode : ans (.getBlockHash network (height - depth)) reply)
      (hreply : ∀ hash, reply ≠ .ok (some hash)) : Found last depth (.error .retry)

end search

variable {lib : Crates} {network : BitcoinNetwork} {ans : Answers} {s : Store} {height : Nat}

/-- The search passes over replaced blocks until it ends. -/
theorem detectDepths_found {d n : Nat} {r : IndexResult (Except ReorgError Unit)}
    (h : Proc.Runs ans ((detectDepths lib network height (List.range' d n)).run s) r) :
    ∃ depth x, r = .ok s x ∧ d ≤ depth ∧ Found lib network ans s height (d + n) depth x ∧
      ∀ j, d ≤ j → j < depth → Replaced lib network ans s height j := by
  induction n generalizing d with
  | zero =>
    exact ⟨d, _, Proc.runs_ok.mp h, le_refl d, .exhausted (.inl rfl), fun j h₁ h₂ => by omega⟩
  | succ n ih =>
    have hnone : ∀ j, d ≤ j → j < d → Replaced lib network ans s height j :=
      fun j h₁ h₂ => by omega
    rw [List.range'_succ] at h
    unfold detectDepths at h
    by_cases hle : d ≤ height
    · have hsub : RuneUpdater.checkedSub height d = some (height - d) := if_pos hle
      rw [hsub] at h
      dsimp only at h
      rw [gets, Async.runs_gets_bind] at h
      cases hstored : s.heightToBlockHeader.get? (height - d) with
      | none =>
        have hhash : s.memBlockHash lib (height - d) = none := by
          unfold Store.memBlockHash
          rw [hstored]
          rfl
        rw [hhash] at h
        exact ⟨d, _, Proc.runs_ok.mp h, le_refl d, .exhausted (.inr (.inr hstored)), hnone⟩
      | some header =>
        have hhash : s.memBlockHash lib (height - d) = some (lib.blockHash header) := by
          unfold Store.memBlockHash
          rw [hstored]
          rfl
        rw [hhash] at h
        obtain ⟨(reply : Except Error (Option BlockHash)), hreply, h⟩ := Proc.runs_await.mp h
        -- both ways to get no hash end the search at this depth
        have hunanswered : (∀ hash, reply ≠ .ok (some hash)) → r = .ok s (.error .retry) →
            ∃ depth x, r = .ok s x ∧ d ≤ depth ∧
              Found lib network ans s height (d + (n + 1)) depth x ∧
              ∀ j, d ≤ j → j < depth → Replaced lib network ans s height j :=
          fun hno hr => ⟨d, _, hr, le_refl d,
            .unanswered (by omega) hle (by rw [hstored]; rfl) hreply hno, hnone⟩
        cases reply with
        | error e => exact hunanswered (fun hash hno => by cases hno) (Proc.runs_ok.mp h)
        | ok found =>
          cases found with
          | none => exact hunanswered (fun hash hno => by cases hno) (Proc.runs_ok.mp h)
          | some hash =>
            have h : Proc.Runs ans ((if lib.blockHash header = hash then _ else _ :
              AsyncM (Except ReorgError Unit)).run s) r := h
            split at h
            · next heq =>
              rw [← heq] at hreply
              exact ⟨d, _, Proc.runs_ok.mp h, le_refl d,
                .ancestor (by omega) hle hstored hreply, hnone⟩
            · next hne =>
              obtain ⟨depth, x, hr, hd, hfound, hreplaced⟩ := ih h
              rw [show d + 1 + n = d + (n + 1) by omega] at hfound
              refine ⟨depth, x, hr, by omega, hfound, fun j h₁ h₂ => ?_⟩
              rcases Nat.eq_or_lt_of_le h₁ with rfl | hlt
              · exact ⟨hle, header, hash, hstored, hreply, hne⟩
              · exact hreplaced j hlt h₂
    · have hsub : RuneUpdater.checkedSub height d = none := if_neg hle
      rw [hsub] at h
      exact ⟨d, _, Proc.runs_ok.mp h, le_refl d, .exhausted (.inr (.inl (by omega))), hnone⟩

/-- When the block to index does not name the tip, the search starts at the tip. -/
theorem detectReorg_found {prev tipHash : BlockHash} (hne : tipHash ≠ prev)
    {r : IndexResult (Except ReorgError Unit)}
    (h : Proc.Runs ans ((detectReorg lib network (some tipHash) prev height).run s) r) :
    ∃ depth x, r = .ok s x ∧ 1 ≤ depth ∧
      Found lib network ans s height (1 + Store.getMaxRecoverableReorgDepth network) depth x ∧
      ∀ j, 1 ≤ j → j < depth → Replaced lib network ans s height j := by
  unfold detectReorg at h
  dsimp only at h
  rw [if_neg hne] at h
  exact detectDepths_found h

end Reorg

/-! ### The tip -/

namespace Window

variable {lib : Crates} {network : BitcoinNetwork} {lo : Nat} {chain : List BlockData}
  {s s' : Store}

/-- The stored headers end at the tip, which the next block must name. -/
theorem tip (h : Window lib network lo chain s) {tip : Nat}
    (htip : s.memLatestBlockHeight = some tip) :
    tip + 1 = lib.firstRuneHeight network + chain.length ∧
    ∃ header, s.heightToBlockHeader.get? tip = some header ∧
      s.nextBlock lib network = (tip + 1, some (lib.blockHash header)) := by
  have hlatest := h.latestHeight
  rw [htip] at hlatest
  split at hlatest
  · cases hlatest
  · next hne =>
    have hlen := List.length_pos_iff.mpr hne
    have htip : tip + 1 = lib.firstRuneHeight network + chain.length := by
      have := Option.some.inj hlatest
      omega
    refine ⟨htip, (chain.getLast hne).header, ?_, ?_⟩
    · have hlo := h.lo_le
      have hlast : chain[tip - lib.firstRuneHeight network]? = some (chain.getLast hne) := by
        rw [← List.getLast?_eq_some_getLast hne, List.getLast?_eq_getElem?]
        congr 1
        omega
      rw [h.headers, if_pos (by omega), hlast]
      rfl
    · rw [h.nextBlock, List.getLast?_eq_some_getLast hne, htip]
      rfl

/-- Without its last blocks, a window keeps the headers of the others. -/
theorem headers_take {n : Nat} (h : Window lib network lo chain s)
    (h' : Window lib network lo (chain.take n) s') (k : Nat) :
    s'.heightToBlockHeader.get? k =
      if k < lib.firstRuneHeight network + n then s.heightToBlockHeader.get? k else none := by
  have hfirst := h.first_le
  rw [h'.headers, h.headers, List.getElem?_take]
  by_cases hlo : lo ≤ k
  · rw [if_pos hlo, if_pos hlo]
    by_cases hk : k < lib.firstRuneHeight network + n
    · rw [if_pos hk, if_pos (by omega)]
    · rw [if_neg hk, if_neg (by omega)]
      rfl
  · rw [if_neg hlo, if_neg hlo]
    split <;> rfl

theorem latest_take {n : Nat} (h : Window lib network lo (chain.take n) s) (hn : 0 < n)
    (hle : n ≤ chain.length) :
    s.memLatestBlockHeight = some (lib.firstRuneHeight network + (n - 1)) := by
  have hlen : (chain.take n).length = n := List.length_take_of_le hle
  have hne : chain.take n ≠ [] := by
    intro hnil
    rw [hnil] at hlen
    exact hn.ne hlen
  rw [h.latestHeight, if_neg hne, hlen]

end Window

/-! ### What the loop finds -/

section

variable {lib : Crates} {network : BitcoinNetwork} {node : NodeChain lib} {ans : Answers}
  {top : Option Nat} {s : Store}

/-- A block that the node has replaced is not on its chain. -/
theorem Reorg.Replaced.off_chain {height depth : Nat}
    (h : Replaced lib network ans s height depth) (hans : ans.Follows network node)
    {header : Header} (hstored : s.heightToBlockHeader.get? (height - depth) = some header) :
    node.headerAt (height - depth) ≠ some header := by
  obtain ⟨other, hash, hother, hnode, hne⟩ := h.other
  obtain ⟨found, hfound, hhash⟩ := hans _ _ hnode
  intro hon
  obtain rfl : other = header := Option.some.inj (hother.symm.trans hstored)
  obtain rfl : found = other := Option.some.inj (hfound.symm.trans hon)
  exact hne hhash

/-- `s'` holds the blocks of `s` up to `fork`, the highest one on the node's chain, and takes
    the next block of that chain. -/
structure BackAtFork (lib : Crates) (network : BitcoinNetwork) (node : NodeChain lib)
    (s s' : Store) (fork : Nat) : Prop where
  latest : s'.memLatestBlockHeight = some fork
  common : ∃ header, s'.heightToBlockHeader.get? fork = some header ∧
    node.headerAt fork = some header
  kept : ∀ height ≤ fork, s'.heightToBlockHeader.get? height = s.heightToBlockHeader.get? height
  undone : ∀ height header, fork < height → s.heightToBlockHeader.get? height = some header →
    s'.heightToBlockHeader.get? height = none ∧ node.headerAt height ≠ some header
  next : ∃ header, node.headerAt (s'.nextBlock lib network).1 = some header ∧
    ∀ ans, ((Reorg.detectReorg lib network (s'.nextBlock lib network).2 header.prevBlockhash
      (s'.nextBlock lib network).1).run s').Gives ans (.ok s' (.ok ()))

/-- The rollback that was found goes back to the fork. -/
theorem recovered {tip depth : Nat} {lo : Nat} {fs : List LedgerFrame}
    (hwin : Window lib network lo (items fs) s)
    (hJ : Journaled lib network (fun _ => Answers.any) (fun _ => True) .entries lo fs s)
    (htip : s.memLatestBlockHeight = some tip)
    (hcoll : NoCollision lib.blockHash s.heightToBlockHeader.get? node.headerAt)
    (hans : ans.Follows network node) (hnode : (node.headerAt (tip + 1)).isSome) {last : Nat}
    (hpos : 1 ≤ depth)
    (hfound : Reorg.Found lib network ans s (tip + 1) last depth
      (.error (.recoverable (tip + 1) depth)))
    (hreplaced : ∀ j, 1 ≤ j → j < depth → Reorg.Replaced lib network ans s (tip + 1) j)
    (ord : HashOrder) :
    ∃ s', (Reorg.handleReorg ord (tip + 1) depth).run s = .ok s' () ∧
      BackAtFork lib network node s s' (tip + 1 - depth) := by
  obtain ⟨hlen, -⟩ := hwin.tip htip
  rw [length_items] at hlen
  cases hfound with
  | @ancestor header _ hle hstored hanswer =>
    have hfirst := hwin.first_le
    have hlo := ((hwin.mem_headers _).mp (FinMap.mem_keys_of_get? hstored)).1
    obtain ⟨s', hrun, hJ'⟩ := hJ.handleReorg (fun _ _ => ⟨nofun, nofun⟩) hpos
      (hlen ▸ hle) (hlen ▸ hlo) ord
    rw [← hlen] at hrun
    have hwin' := hJ'.window
    rw [items_drop] at hwin'
    have hlatest : s'.memLatestBlockHeight = some (tip + 1 - depth) := by
      rw [hwin'.latest_take (by omega) (by rw [length_items]; omega)]
      congr 1
      omega
    have hheaders : ∀ k, s'.heightToBlockHeader.get? k =
        if k ≤ tip + 1 - depth then s.heightToBlockHeader.get? k else none := by
      intro k
      rw [hwin.headers_take hwin']
      by_cases hk : k ≤ tip + 1 - depth
      · rw [if_pos hk, if_pos (by omega)]
      · rw [if_neg hk, if_neg (by omega)]
    -- what the node answered is the hash of its header there, so the headers are the same
    obtain ⟨found, hon, hhash⟩ := hans _ _ hanswer
    obtain rfl : header = found := hcoll _ _ _ hstored hon hhash.symm
    have hkept : s'.heightToBlockHeader.get? (tip + 1 - depth) = some header := by
      rw [hheaders, if_pos (le_refl _), hstored]
    refine ⟨s', hrun, hlatest, ⟨header, hkept, hon⟩, fun k hk => ?_, fun k b hk hb => ?_, ?_⟩
    · rw [hheaders, if_pos hk]
    · refine ⟨by rw [hheaders, if_neg (by omega)], ?_⟩
      have hmem := (hwin.mem_headers k).mp (FinMap.mem_keys_of_get? hb)
      rw [length_items, ← hlen] at hmem
      have hoff := hreplaced (tip + 1 - k) (by omega) (by omega)
      have hat : tip + 1 - (tip + 1 - k) = k := by omega
      rw [← hat] at hb ⊢
      exact hoff.off_chain hans hb
    · obtain ⟨-, tipHeader, htipHeader, hnext⟩ := hwin'.tip hlatest
      obtain rfl : header = tipHeader := Option.some.inj (hkept.symm.trans htipHeader)
      rw [hnext]
      obtain ⟨above, habove⟩ := Option.isSome_iff_exists.mp
        (node.below (show tip + 1 - depth + 1 ≤ tip + 1 by omega) hnode)
      refine ⟨above, habove, fun ans => ?_⟩
      unfold Reorg.detectReorg
      dsimp only
      rw [if_pos (node.linked _ _ _ hon habove).symm]
      exact .ok s' _

/-- With a block from the node the callback comes to `processBlock`, or it has given up. -/
theorem updateIndexIteration_given {ord : HashOrder} {subscribers : List Nat} {hash : BlockHash}
    {block : Block} {l : Calls} {r : IndexResult Flow}
    (h : Proc.RunsVia ans ((updateIndexIteration lib ord network subscribers).run s)
      (⟨.getBlockHash network (s.nextBlock lib network).1,
          (.ok (some hash) : Except Error (Option BlockHash))⟩ ::
        ⟨.innerGetBlock hash, (.ok block : Except Error Block)⟩ :: l) r) :
    r.Keeps s ∨ Proc.RunsVia ans ((processBlock lib ord network subscribers
      (s.nextBlock lib network).1 (s.nextBlock lib network).2 hash
      (BlockData.ofBlock lib block)).run s) l r := by
  obtain ⟨_, _, -, hl, h⟩ := Proc.runsVia_await.mp h
  cases hl
  have hfetch : Proc.RunsVia ans ((Async.attemptProc ((getBlock lib hash).run s)).bind _)
    (⟨.innerGetBlock hash, (.ok block : Except Error Block)⟩ :: l) r := h
  rw [getBlock_run] at hfetch
  obtain ⟨_, _, -, hl, hchecked⟩ := Proc.runsVia_await.mp hfetch
  cases hl
  dsimp only at hchecked
  -- a block that fails a check is dropped
  split at hchecked
  · exact .inl (rearmUnlessStopped_readOnly.runs ans s r hchecked.runs)
  · split at hchecked
    · exact .inr hchecked
    · exact .inl (rearmUnlessStopped_readOnly.runs ans s r hchecked.runs)

/-- Against a node that follows one chain, `detect_reorg` lets a block be indexed only when all
    stored blocks are on that chain, a rollback that it asks for goes back to the fork, and it
    gives up only when none of the recoverable blocks is on the chain. -/
theorem loopRun_fork (h : LoopRun lib network top s) {tip : Nat}
    (htip : s.memLatestBlockHeight = some tip)
    (hcoll : NoCollision lib.blockHash s.heightToBlockHeader.get? node.headerAt)
    (hans : ans.Follows network node) {header : Header}
    (hnode : node.headerAt (tip + 1) = some header) {r : IndexResult (Except ReorgError Unit)}
    (hrun : Proc.Runs ans ((Reorg.detectReorg lib network (s.nextBlock lib network).2
      header.prevBlockhash (s.nextBlock lib network).1).run s) r) :
    ∃ x, r = .ok s x ∧
      (x = .ok () → ∀ height a, s.heightToBlockHeader.get? height = some a →
        node.headerAt height = some a) ∧
      (∀ height depth, x = .error (.recoverable height depth) → ∀ ord, ∃ s',
        (Reorg.handleReorg ord height depth).run s = .ok s' () ∧
        BackAtFork lib network node s s' (height - depth)) ∧
      (x = .error .unrecoverable → ∀ height a,
        tip + 1 - Store.getMaxRecoverableReorgDepth network ≤ height → height ≤ tip →
        s.heightToBlockHeader.get? height = some a → node.headerAt height ≠ some a) ∧
      (x = .error .retry ∨ x = .error .unrecoverable → ∀ ord subscribers hash (block : Block)
        ans₁ ans₂ l₁ l₂ r', block.header = header →
        Proc.RunsVia ans₁ ((Reorg.detectReorg lib network (s.nextBlock lib network).2
          header.prevBlockhash (s.nextBlock lib network).1).run s) l₁ (.ok s x) →
        Proc.RunsVia ans₂ ((updateIndexIteration lib ord network subscribers).run s)
          (⟨.getBlockHash network (s.nextBlock lib network).1,
              (.ok (some hash) : Except Error (Option BlockHash))⟩ ::
            ⟨.innerGetBlock hash, (.ok block : Except Error Block)⟩ :: (l₁ ++ l₂)) r' →
        r'.Keeps s) := by
  obtain ⟨lo, fs, hinv, hJ⟩ := loopRun_journaled h
  have hwin := hJ.window
  obtain ⟨hlen, tipHeader, htipHeader, hnext⟩ := hwin.tip htip
  have hsegment := hinv.segment
  rw [hnext] at hrun ⊢
  by_cases hlink : lib.blockHash tipHeader = header.prevBlockhash
  · -- the block names the tip, so the tip is the node's, and with it all blocks below
    refine ⟨.ok (), ?_, fun _ height a ha => ?_, nofun, nofun, by rintro (h | h) <;> cases h⟩
    · unfold Reorg.detectReorg at hrun
      dsimp only at hrun
      rw [if_pos hlink] at hrun
      exact Proc.runs_ok.mp hrun
    · obtain ⟨below, hbelow⟩ := Option.isSome_iff_exists.mp (node.rooted tip (by rw [hnode]; rfl))
      have hhash : lib.blockHash tipHeader = lib.blockHash below :=
        hlink.trans (node.linked _ _ _ hbelow hnode)
      obtain rfl : tipHeader = below := hcoll _ _ _ htipHeader hbelow hhash
      have hle := ((hwin.mem_headers height).mp (FinMap.mem_keys_of_get? ha)).2
      exact node.agree_below hsegment hcoll htipHeader hbelow (by omega) ha
  -- otherwise the search says where it ended and what was replaced above
  · obtain ⟨depth, x, rfl, hpos, hfound, hreplaced⟩ := Reorg.detectReorg_found hlink hrun
    refine ⟨x, rfl, ?_, ?_, ?_, ?_⟩
    · rintro rfl
      cases hfound
    · rintro height depth' rfl ord
      obtain ⟨rfl, rfl⟩ : height = tip + 1 ∧ depth' = depth := by cases hfound; exact ⟨rfl, rfl⟩
      exact recovered hwin hJ htip hcoll hans (by rw [hnode]; rfl) hpos hfound hreplaced ord
    · rintro rfl height a hdeep hle ha
      have hat : tip + 1 - (tip + 1 - height) = height := by omega
      cases hfound with
      | exhausted hend =>
        -- a height within reach was compared before the search ended
        have htried : tip + 1 - height < depth := by
          rcases hend with hend | hend | hend
          · omega
          · omega
          · -- nothing is stored below a gap
            by_contra hnot
            have hsome := hsegment.gapless height (tip + 1 - depth) tip (by omega) (by omega)
              (by rw [ha]; rfl) (by rw [htipHeader]; rfl)
            rw [hend] at hsome
            cases hsome
        rw [← hat] at ha ⊢
        exact (hreplaced _ (by omega) htried).off_chain hans ha
    · rintro hx ord subscribers hash block ans₁ ans₂ l₁ l₂ r' rfl hdetect hiteration
      rw [← hnext] at hdetect hiteration
      rcases updateIndexIteration_given hiteration with hkeep | hprocess
      · exact hkeep
      -- the calls of the detection are those of the callback, so is its answer
      rw [processBlock, Async.run_bind] at hprocess
      have hrest := hprocess.after_bind hdetect
      rcases hx with rfl | rfl
      · exact rearmUnlessStopped_readOnly.runs ans₂ s r' hrest.runs
      · rw [(Proc.runsVia_ok.mp hrest).2]
        rfl

end

/-! ### A loop that meets a fork -/

namespace Sample

/-- The headers of the sample node up to `fork`, then others up to `last`. -/
def forkedHeader (fork last height : Nat) : Option Header :=
  if height ≤ fork then some (minedBlock height).header
  else if height ≤ last then
    some ⟨0, BitVec.ofNat 256 (if height = fork + 1 then fork + 1 else 99 + height), 0, 0, 0,
      100 + height⟩
  else none

/-- A chain that leaves the one of the sample node above `fork` and ends at `last`. -/
def forked (fork last : Nat) : NodeChain crates where
  headerAt := forkedHeader fork last
  linked n a b ha hb := by
    unfold forkedHeader at ha hb
    split at ha
    -- below the fork, at it, and on the branch
    · obtain rfl := Option.some.inj ha
      split at hb
      · obtain rfl := Option.some.inj hb
        rfl
      · split at hb
        · obtain rfl := Option.some.inj hb
          have hn : n = fork := by omega
          simp [crates, minedBlock, hn]
        · cases hb
    · split at ha
      · obtain rfl := Option.some.inj ha
        rw [if_neg (by omega)] at hb
        split at hb
        · obtain rfl := Option.some.inj hb
          have hn : n + 1 ≠ fork + 1 := by omega
          simp only [crates, if_neg hn]
          congr 1
          omega
        · cases hb
      · cases ha
  rooted n h := by
    unfold forkedHeader at h ⊢
    split at h
    · rw [if_pos (by omega)]
      rfl
    · split at h
      · split
        · rfl
        · rw [if_pos (by omega)]
          rfl
      · cases h

/-- The sample node once it has switched to that chain. -/
def switched (fork last : Nat) : (q : Call) → Reply q
  | .getBlockHash _ height => (.ok ((forkedHeader fork last height).map crates.blockHash) :
      Except Error (Option BlockHash))
  | q => reply q

theorem switched_follows (fork last : Nat) :
    (Answers.only (switched fork last)).Follows .regtest (forked fork last) := by
  intro height hash h
  have heq : (forkedHeader fork last height).map crates.blockHash = some hash :=
    (Except.ok.inj h).symm
  exact Option.map_eq_some_iff.mp heq

end Sample

theorem loopRun_fork_sample :
    ∃ s s', LoopRun Sample.crates .regtest (some 1) s ∧ s.memLatestBlockHeight = some 1 ∧
      (Reorg.handleReorg Sample.order 2 2).run s = .ok s' () ∧
      BackAtFork Sample.crates .regtest (Sample.forked 0 2) s s' 0 := by
  obtain ⟨⟨top, s⟩, hexec, hP⟩ := (Option.any_eq_true _ _).mp
    (show (loopExec Sample.crates Sample.order .regtest Sample.reply 2
      (none, Store.empty Sample.config)).any (fun x => x.1 = some 1 ∧
        x.2.memLatestBlockHeight = some 1 ∧ x.2.heightToBlockHeader.keys = {0, 1} ∧
        x.2.heightToBlockHeader.get? 0 = some (Sample.minedBlock 0).header ∧
        x.2.heightToBlockHeader.get? 1 = some (Sample.minedBlock 1).header ∧
        Result.returns (fun _ y => Sample.asksFor 2 2 y)
          (Proc.resultWith (Sample.switched 0 2) ((Reorg.detectReorg Sample.crates .regtest
            (x.2.nextBlock Sample.crates .regtest).2 101
            (x.2.nextBlock Sample.crates .regtest).1).run x.2))) = true by decide)
  simp only [decide_eq_true_eq] at hP
  obtain ⟨rfl, htip, hkeys, hzero, hone, hreturns⟩ := hP
  obtain ⟨s₁, y, hresult, hy⟩ := Result.returns_iff.mp hreturns
  have hloop := loopRun_of_loopExec (.init Sample.config) hexec
  -- only two headers are stored, and the branch has other hashes
  have hcoll : NoCollision Sample.crates.blockHash s.heightToBlockHeader.get?
      (Sample.forked 0 2).headerAt := by
    intro n a b ha hb hhash
    have hn : n = 0 ∨ n = 1 := by
      have hmem := FinMap.mem_keys_of_get? ha
      rw [hkeys] at hmem
      simpa using hmem
    rcases hn with rfl | rfl
    · exact Option.some.inj (ha.symm.trans (hzero.trans hb))
    · rw [hone] at ha
      cases ha
      cases hb
      revert hhash
      decide
  have hrun := runs_only (Sample.switched 0 2) ((Reorg.detectReorg Sample.crates .regtest
    (s.nextBlock Sample.crates .regtest).2 101 (s.nextBlock Sample.crates .regtest).1).run s)
  have hnode : (Sample.forked 0 2).headerAt (1 + 1) = some ⟨0, 101, 0, 0, 0, 102⟩ := rfl
  obtain ⟨x, hx, -, hback, -⟩ :=
    loopRun_fork hloop htip hcoll (Sample.switched_follows 0 2) hnode hrun
  rw [hresult] at hx
  cases hx
  obtain rfl := Sample.asksFor_iff.mp hy
  obtain ⟨s', hundone, hfork⟩ := hback 2 2 rfl Sample.order
  exact ⟨s, s', hloop, htip, hundone, hfork⟩

end RunesIndexer
