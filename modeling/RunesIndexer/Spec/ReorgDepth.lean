import RunesIndexer.Spec.Fork

/-! # How deep a reorg can be

    A stable node has replaced the last `k` blocks of the loop. The loop recovers from
    this when `k` is below the maximum depth: a depth counts from the height that is
    indexed next, so a search up to the maximum passes one block less.
-/

namespace RunesIndexer

open Resumption Journal

/-- The node always answers with the hashes of its chain. -/
def Stable {lib : Crates} (network : BitcoinNetwork) (node : NodeChain lib)
    (f : (q : Call) → Reply q) : Prop :=
  ∀ height header, node.headerAt height = some header → f (.getBlockHash network height) =
    (.ok (some (lib.blockHash header)) : Except Error (Option BlockHash))

/-- The node's chain has the stored blocks except for the last `k`, which it has replaced, and
    it goes on with `next`. -/
structure Replaces {lib : Crates} (node : NodeChain lib) (s : Store) (tip k : Nat)
    (next : Header) : Prop where
  shared : ∀ height ≤ tip - k, ∀ header, s.heightToBlockHeader.get? height = some header →
    node.headerAt height = some header
  replaced : ∀ height, tip - k < height → height ≤ tip → ∀ header other,
    s.heightToBlockHeader.get? height = some header → node.headerAt height = some other →
    lib.blockHash header ≠ lib.blockHash other
  next : node.headerAt (tip + 1) = some next

/-- The last `k` blocks are undone: their headers are gone, and whatever replay `s` is the
    state of, `s'` is that of the same replay without its last `k` blocks. -/
structure Undone (lib : Crates) (network : BitcoinNetwork) (tip k : Nat) (s s' : Store) :
    Prop where
  latest : s'.memLatestBlockHeight = some (tip - k)
  headers : ∀ height, s'.heightToBlockHeader.get? height =
    if height ≤ tip - k then s.heightToBlockHeader.get? height else none
  replay : ∀ (node : Node) admits p lo fs, (∀ chain, admits chain → p.Sound lib chain) →
    Journaled lib network node admits p lo fs s → Journaled lib network node admits p lo (fs.drop k) s'

/-- `detect_reorg` asks for a rollback that undoes the last `k` blocks. -/
def Recovers (lib : Crates) (network : BitcoinNetwork) (f : (q : Call) → Reply q) (s : Store)
    (tip k : Nat) (next : Header) : Prop :=
  ∃ depth, Proc.Runs (Answers.only f) ((Reorg.detectReorg lib network
      (s.nextBlock lib network).2 next.prevBlockhash (s.nextBlock lib network).1).run s)
      (.ok s (.error (.recoverable (tip + 1) depth))) ∧
    ∀ ord, ∃ s', (Reorg.handleReorg ord (tip + 1) depth).run s = .ok s' () ∧
      Undone lib network tip k s s'

section

variable {lib : Crates} {network : BitcoinNetwork} {node : NodeChain lib}
  {f : (q : Call) → Reply q} {s : Store} {tip k : Nat} {next : Header}

/-- A stable node answers at every height up to its tip. -/
theorem Stable.answers (hstable : Stable network node f) (h : Replaces node s tip k next)
    {height : Nat} (hle : height ≤ tip + 1) :
    ∃ header, node.headerAt height = some header ∧ ∀ reply : Except Error (Option BlockHash),
      Answers.only f (.getBlockHash network height) reply →
        reply = .ok (some (lib.blockHash header)) := by
  obtain ⟨header, hheader⟩ := Option.isSome_iff_exists.mp
    (node.below hle (by rw [h.next]; rfl))
  exact ⟨header, hheader, fun reply hreply => hreply.trans (hstable height header hheader)⟩

/-- The search ends above the shared blocks or at the highest of them. -/
theorem Replaces.depth_le (h : Replaces node s tip k next) (hstable : Stable network node f)
    {depth : Nat} (hreplaced : ∀ j, 1 ≤ j → j < depth →
      Reorg.Replaced lib network (Answers.only f) s (tip + 1) j) : depth ≤ k + 1 := by
  by_contra hlt
  obtain ⟨hle, header, hash, hstored, hanswer, hne⟩ := hreplaced (k + 1) (by omega) (by omega)
  have hon := h.shared (tip + 1 - (k + 1)) (by omega) header hstored
  obtain ⟨found, hfound, hanswers⟩ := hstable.answers h (show tip + 1 - (k + 1) ≤ tip + 1 by omega)
  obtain rfl : header = found := Option.some.inj (hon.symm.trans hfound)
  exact hne (Option.some.inj (Except.ok.inj (hanswers _ hanswer))).symm

/-- It does not end at a replaced block. -/
theorem Replaces.lt_depth (h : Replaces node s tip k next) (hstable : Stable network node f)
    (hk : k ≤ tip) {depth last : Nat} (hpos : 1 ≤ depth) (hfound : Reorg.Found lib network (Answers.only f) s
      (tip + 1) last depth (.error (.recoverable (tip + 1) depth))) : k < depth := by
  cases hfound with
  | @ancestor header _ hle hstored hanswer =>
    by_contra hnot
    obtain ⟨found, hon, hanswers⟩ := hstable.answers h (show tip + 1 - depth ≤ tip + 1 by omega)
    have hhash : lib.blockHash header = lib.blockHash found :=
      Option.some.inj (Except.ok.inj (hanswers _ hanswer))
    exact h.replaced (tip + 1 - depth) (by omega) (by omega) header found hstored hon hhash

/-- A rollback of `k` blocks inside the window undoes them. -/
theorem undone_of_journaled {lo : Nat} {fs : List LedgerFrame}
    (hJ : Journaled lib network (fun _ => Answers.any) (fun _ => True) .entries lo fs s)
    (htip : s.memLatestBlockHeight = some tip) (hk : lib.firstRuneHeight network + k ≤ tip)
    {header : Header} (hstored : s.heightToBlockHeader.get? (tip - k) = some header)
    (ord : HashOrder) :
    ∃ s', (Reorg.handleReorg ord (tip + 1) (k + 1)).run s = .ok s' () ∧
      Undone lib network tip k s s' := by
  -- for any scope, since the caller asks for more than the one at hand
  have hroll : ∀ (node : Node) admits p lo fs, (∀ chain, admits chain → p.Sound lib chain) →
      Journaled lib network node admits p lo fs s →
      ∃ s', (Reorg.handleReorg ord (tip + 1) (k + 1)).run s = .ok s' () ∧
        Journaled lib network node admits p lo (fs.drop k) s' := by
    intro node admits p lo fs hsound hJ
    obtain ⟨hlen, -⟩ := hJ.window.tip htip
    rw [length_items] at hlen
    have hlo := ((hJ.window.mem_headers _).mp (FinMap.mem_keys_of_get? hstored)).1
    rw [hlen]
    exact hJ.handleReorg hsound (by omega) (by omega) (by omega) ord
  obtain ⟨s', hrun, hJ'⟩ := hroll _ _ .entries lo fs (fun _ _ => ⟨nofun, nofun⟩) hJ
  have hwin := hJ.window
  have hwin' := hJ'.window
  obtain ⟨hlen, -⟩ := hwin.tip htip
  rw [length_items] at hlen
  rw [items_drop] at hwin'
  refine ⟨s', hrun, ?_, fun height => ?_, fun node admits p lo fs hsound hJ => ?_⟩
  · rw [hwin'.latest_take (by omega) (by rw [length_items]; omega)]
    congr 1
    omega
  · rw [hwin.headers_take hwin']
    by_cases hle : height ≤ tip - k
    · rw [if_pos hle, if_pos (by omega)]
    · rw [if_neg hle, if_neg (by omega)]
  · obtain ⟨s'', hrun', hJ''⟩ := hroll node admits p lo fs hsound hJ
    rw [hrun] at hrun'
    cases hrun'
    exact hJ''

/-- The loop recovers from `k` replaced blocks exactly when `k` is below the maximum depth. -/
theorem loopRun_recovers_iff (h : LoopRun lib network (some tip) s)
    (htip : s.memLatestBlockHeight = some tip) (hpos : 1 ≤ k)
    (hmax : k ≤ Store.getMaxRecoverableReorgDepth network)
    (hfirst : lib.firstRuneHeight network + k ≤ tip) (hfork : Replaces node s tip k next)
    (hstable : Stable network node f) :
    Recovers lib network f s tip k next ↔ k < Store.getMaxRecoverableReorgDepth network := by
  obtain ⟨lo, fs, hinv, hJ⟩ := loopRun_journaled h
  obtain ⟨hlen, tipHeader, htipHeader, hnext⟩ := hinv.window.tip htip
  -- the block at the tip is replaced, so the next block does not name it
  have hlink : lib.blockHash tipHeader ≠ next.prevBlockhash := by
    obtain ⟨below, hbelow⟩ :=
      Option.isSome_iff_exists.mp (node.rooted tip (by rw [hfork.next]; rfl))
    rw [node.linked _ _ _ hbelow hfork.next]
    exact hfork.replaced tip (by omega) (le_refl tip) tipHeader below htipHeader hbelow
  unfold Recovers
  rw [hnext]
  constructor
  · intro ⟨depth, hdetect, _⟩
    obtain ⟨depth', x, hr, hpos', hfound, -⟩ := Reorg.detectReorg_found hlink hdetect
    cases hr
    obtain rfl : depth = depth' := by cases hfound; rfl
    have hlt := hfork.lt_depth hstable (by omega) hpos' hfound
    cases hfound with
    | ancestor hlast _ _ _ => omega
  · intro hlt
    have hrun := runs_only f
      ((Reorg.detectReorg lib network (some (lib.blockHash tipHeader)) next.prevBlockhash
        (tip + 1)).run s)
    obtain ⟨depth, x, hr, hpos', hfound, hreplaced⟩ := Reorg.detectReorg_found hlink hrun
    rw [hr] at hrun
    have hdepth := hfork.depth_le hstable hreplaced
    -- the window reaches down to the highest shared block
    have hstored : ∀ height, tip - k ≤ height → height ≤ tip →
        ∃ header, s.heightToBlockHeader.get? height = some header := by
      intro height hge hle
      have hstart : (some tip).elim (lib.firstRuneHeight network) (windowStart lib network) ≤
          height := by
        show windowStart lib network tip ≤ height
        unfold windowStart
        omega
      have hmem := (hinv.window.mem_headers height).mpr ⟨hstart, by omega⟩
      exact Option.isSome_iff_exists.mp (FinMap.mem_keys.mp hmem)
    cases hfound with
    | exhausted hend =>
      rcases hend with hend | hend | hend
      · omega
      · omega
      · obtain ⟨header, hheader⟩ := hstored (tip + 1 - depth) (by omega) (by omega)
        rw [hend] at hheader
        cases hheader
    | unanswered _ hle _ hanswer hno =>
      obtain ⟨header, -, hanswers⟩ :=
        hstable.answers hfork (show tip + 1 - depth ≤ tip + 1 by omega)
      exact absurd (hanswers _ hanswer) (hno _)
    | ancestor hlast hle hheader hanswer =>
      have hgt := hfork.lt_depth hstable (by omega) hpos'
        (.ancestor hlast hle hheader hanswer)
      obtain rfl : depth = k + 1 := by omega
      rw [show tip + 1 - (k + 1) = tip - k by omega] at hheader
      exact ⟨k + 1, hrun, undone_of_journaled hJ htip hfirst hheader⟩

end

/-! ### Reorgs of the sample loop -/

namespace Sample

/-- The first block above the fork and those that follow it. -/
def forkedNext (fork tip : Nat) : Header :=
  ⟨0, BitVec.ofNat 256 (if tip + 1 = fork + 1 then fork + 1 else 99 + (tip + 1)), 0, 0, 0,
    100 + (tip + 1)⟩

/-- The node that leaves the chain of the sample node at `fork` replaces what is above. -/
theorem forked_replaces {s : Store} {fork tip : Nat} (hle : fork ≤ tip)
    (hmined : ∀ k ∈ s.heightToBlockHeader.keys,
      s.heightToBlockHeader.get? k = some (minedBlock k).header) :
    Replaces (forked fork (tip + 1)) s tip (tip - fork) (forkedNext fork tip) where
  shared height hheight header hheader := by
    rw [hmined height (FinMap.mem_keys_of_get? hheader)] at hheader
    show forkedHeader fork (tip + 1) height = some header
    unfold forkedHeader
    rw [if_pos (by omega), hheader]
  replaced height hlt hheight header other hheader hother := by
    rw [hmined height (FinMap.mem_keys_of_get? hheader)] at hheader
    obtain rfl := Option.some.inj hheader
    have hother : forkedHeader fork (tip + 1) height = some other := hother
    unfold forkedHeader at hother
    rw [if_neg (by omega), if_pos (by omega)] at hother
    obtain rfl := Option.some.inj hother
    show BitVec.ofNat 256 (height + 1) ≠ BitVec.ofNat 256 (100 + height)
    intro heq
    have := congrArg BitVec.toNat heq
    simp only [BitVec.toNat_ofNat] at this
    omega
  next := by
    show forkedHeader fork (tip + 1) (tip + 1) = _
    unfold forkedHeader
    rw [if_neg (by omega), if_pos (le_refl _)]
    rfl

/-- The answer is that the reorg is unrecoverable. -/
def givesUp : Except ReorgError Unit → Bool
  | .ok _ => false
  | .error e => e = .unrecoverable

theorem givesUp_iff {x : Except ReorgError Unit} :
    givesUp x = true ↔ x = .error .unrecoverable := by
  cases x <;> simp [givesUp]

theorem switched_stable (fork last : Nat) :
    Stable .regtest (forked fork last) (switched fork last) := by
  intro height header h
  show (.ok ((forkedHeader fork last height).map crates.blockHash) :
    Except Error (Option BlockHash)) = _
  rw [show forkedHeader fork last height = some header from h]
  rfl

/-- The sample loop after `tip + 1` iterations. -/
theorem loop_exec (tip : Nat) {P : Store → Bool}
    (h : (loopExec crates order .regtest reply (tip + 1) (none, Store.empty config)).any
      (fun x => x.1 = some tip ∧ x.2.memLatestBlockHeight = some tip ∧
        (∀ k ∈ x.2.heightToBlockHeader.keys,
          x.2.heightToBlockHeader.get? k = some (minedBlock k).header) ∧ P x.2 = true) = true) :
    ∃ s, LoopRun crates .regtest (some tip) s ∧ s.memLatestBlockHeight = some tip ∧
      (∀ k ∈ s.heightToBlockHeader.keys,
        s.heightToBlockHeader.get? k = some (minedBlock k).header) ∧ P s = true := by
  obtain ⟨⟨top, s⟩, hexec, hP⟩ := (Option.any_eq_true _ _).mp h
  obtain ⟨rfl, htip, hmined, hP⟩ := of_decide_eq_true hP
  exact ⟨s, loopRun_of_loopExec (.init config) hexec, htip, hmined, hP⟩

end Sample

theorem loopRun_recovers_iff_sample :
    ∃ s, LoopRun Sample.crates .regtest (some 1) s ∧ s.memLatestBlockHeight = some 1 ∧
      Recovers Sample.crates .regtest (Sample.switched 0 2) s 1 1 (Sample.forkedNext 0 1) := by
  obtain ⟨s, hloop, htip, hmined, -⟩ := Sample.loop_exec 1 (P := fun _ => true) (by decide)
  have hiff := loopRun_recovers_iff hloop htip (le_refl 1) (by decide) (by decide)
    (Sample.forked_replaces (Nat.zero_le 1) hmined) (Sample.switched_stable 0 2)
  exact ⟨s, hloop, htip, hiff.mpr (by decide)⟩

/-- Six blocks are replaced and the common one is the seventh from the top, which is out of
    reach. -/
theorem loopRun_unrecovered :
    ∃ s, LoopRun Sample.crates .regtest (some 6) s ∧ s.memLatestBlockHeight = some 6 ∧
      6 ≤ Store.getMaxRecoverableReorgDepth .regtest ∧
      Sample.crates.firstRuneHeight .regtest ≤ 6 - 6 ∧
      Replaces (Sample.forked 0 7) s 6 6 (Sample.forkedNext 0 6) ∧
      Stable .regtest (Sample.forked 0 7) (Sample.switched 0 7) ∧
      Proc.Runs (Answers.only (Sample.switched 0 7)) ((Reorg.detectReorg Sample.crates .regtest
        (s.nextBlock Sample.crates .regtest).2 (Sample.forkedNext 0 6).prevBlockhash
        (s.nextBlock Sample.crates .regtest).1).run s) (.ok s (.error .unrecoverable)) := by
  obtain ⟨s, hloop, htip, hmined, hP⟩ := Sample.loop_exec 6 (P := fun s =>
    Result.returns (fun _ x => Sample.givesUp x) (Proc.resultWith (Sample.switched 0 7)
      ((Reorg.detectReorg Sample.crates .regtest (s.nextBlock Sample.crates .regtest).2
        (Sample.forkedNext 0 6).prevBlockhash (s.nextBlock Sample.crates .regtest).1).run s)))
    (by decide)
  obtain ⟨s', x, hresult, hx⟩ := Result.returns_iff.mp hP
  have hrun := runs_only (Sample.switched 0 7) ((Reorg.detectReorg Sample.crates .regtest
    (s.nextBlock Sample.crates .regtest).2 (Sample.forkedNext 0 6).prevBlockhash
    (s.nextBlock Sample.crates .regtest).1).run s)
  rw [hresult] at hrun
  obtain rfl := (Reorg.detectReorg_readOnly _ _ _ _ _).ok hrun
  obtain rfl : x = .error .unrecoverable := Sample.givesUp_iff.mp hx
  exact ⟨s', hloop, htip, by decide, by decide, Sample.forked_replaces (Nat.zero_le 6) hmined,
    Sample.switched_stable 0 7, hrun⟩

end RunesIndexer
