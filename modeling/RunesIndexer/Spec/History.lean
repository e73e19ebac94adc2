import RunesIndexer.Spec.Exact
import RunesIndexer.Lib.Replay

/-! # Every state replays the chain it holds

    The abstract index is a chain of blocks and the ledger that results from
    applying them one after the other. Whatever reorgs a run went through, its
    ledger is that of a replay of the chain it holds now: a stack of frames, one for
    each held block, whose records are those in the log and whose counters are
    those in the statistic rows. Indexing pushes a frame and rolling back pops one.
-/

namespace RunesIndexer

open Resumption MonadicFold RuneUpdater Journal

/-! ### Replaying blocks -/

/-- A held block, the record it left and the ledger after it. -/
abbrev LedgerFrame : Type := Frame BlockData ChangeRecord Ledger

section

variable (lib : Crates) (network : BitcoinNetwork) (node : Node)
  (admits : List BlockData → Prop) (p : Scope)

/-- A completed `index_block` on top of `chain` takes ledger `L` to `L'` and leaves `r`. -/
structure BlockStep (chain : List BlockData) (b : BlockData) (r : ChangeRecord)
    (L L' : Ledger) : Prop where
  admitted : admits (chain ++ [b])
  indexed : ∃ ord s s', s.RowsBelow (lib.firstRuneHeight network + chain.length) ∧
    Agrees p s.ledger L ∧
    Proc.Runs (node (chain ++ [b]))
      ((indexBlock lib ord network (lib.firstRuneHeight network + chain.length) b).run s)
      (.ok s' ()) ∧
    s'.heightToChangeRecord.get? (lib.firstRuneHeight network + chain.length) = some r ∧
    Agrees p s'.ledger L'

/-- The frames are successive blocks from the empty ledger. -/
abbrev Replays (fs : List LedgerFrame) : Prop :=
  Replay (BlockStep lib network node admits p) Ledger.empty fs

/-- The state reached is that of the replay `fs`, of which the blocks from height `lo` on
    can be undone. -/
structure Journaled (lo : Nat) (fs : List LedgerFrame) (s : Store) : Prop where
  replay : Replays lib network node admits p fs
  now : Agrees p s.ledger (current Ledger.empty fs)
  window : Window lib network lo (items fs) s
  log : ∀ i f, fs.reverse[i]? = some f → lo ≤ lib.firstRuneHeight network + i →
    s.heightToChangeRecord.get? (lib.firstRuneHeight network + i) = some f.record ∧
    s.heightToStatisticRunes.get? (lib.firstRuneHeight network + i) = some f.after.runes ∧
    s.heightToStatisticReservedRunes.get? (lib.firstRuneHeight network + i) =
      some f.after.reservedRunes

end

variable {lib : Crates} {network : BitcoinNetwork} {node : Node}
  {admits : List BlockData → Prop} {p : Scope}

theorem BlockStep.below {chain : List BlockData} {b : BlockData} {r : ChangeRecord}
    {L L' : Ledger} (h : BlockStep lib network node admits p chain b r L L')
    (hsound : ∀ chain, admits chain → p.Sound lib chain)
    (hbelow : Below p lib (lib.firstRuneHeight network + chain.length) (chainTxids chain) L) :
    Below p lib (lib.firstRuneHeight network + (chain ++ [b]).length)
      (chainTxids (chain ++ [b])) L' := by
  obtain ⟨ord, s, s', hrows, hL, hrun, -, hL'⟩ := h.indexed
  obtain ⟨r', -, hundoing⟩ := indexBlock_undoing (hsound _ h.admitted) (hbelow.agrees hL.symm)
    hrows hrun
  rw [List.length_append, List.length_singleton, ← Nat.add_assoc]
  exact hundoing.below.agrees hL'

theorem Replays.below {fs : List LedgerFrame} (h : Replays lib network node admits p fs)
    (hsound : ∀ chain, admits chain → p.Sound lib chain) :
    Below p lib (lib.firstRuneHeight network + fs.length) (chainTxids (items fs))
      (current Ledger.empty fs) := by
  have := h.invariant (P := fun chain L =>
      Below p lib (lib.firstRuneHeight network + chain.length) (chainTxids chain) L)
    (below_empty _ _ _ _) (fun chain b r L L' hbelow hstep => hstep.below hsound hbelow)
  rw [length_items] at this
  exact this

/-- The record that a block left takes any state with its ledger back to the one before. -/
theorem BlockStep.undo {chain : List BlockData} {b : BlockData} {r : ChangeRecord}
    {L L' : Ledger} (h : BlockStep lib network node admits p chain b r L L')
    (hsound : ∀ chain, admits chain → p.Sound lib chain)
    (hbelow : Below p lib (lib.firstRuneHeight network + chain.length) (chainTxids chain) L)
    (ord : HashOrder) (height : Nat) {x : Store} (hx : Agrees p x.ledger L') :
    ∃ y, (Reorg.undoRecord ord height r).run x = .ok y () ∧ y.ledger.entries = L.entries ∧
      (p.outpoints → y.ledger.balances = L.balances ∧ y.ledger.heights = L.heights) ∧
      (p.registry → y.ledger.names = L.names ∧ y.ledger.etchings = L.etchings) := by
  obtain ⟨ord', s, s', hrows, hL, hrun, hr, hL'⟩ := h.indexed
  obtain ⟨r', hr', hundoing⟩ := indexBlock_undoing (hsound _ h.admitted)
    (hbelow.agrees hL.symm) hrows hrun
  rw [hr] at hr'
  cases hr'
  have hxs := hx.trans hL'.symm
  obtain ⟨y, hy, hentries, hout, hnames, hetchings⟩ := undoRecord_restores hundoing.entries
    (fun id e he => ((hbelow.agrees hL.symm).entries id e he).2) ord height hxs.entries
  refine ⟨y, hy, hentries.trans hL.entries, fun hp => ?_, fun hp => ?_⟩
  · obtain ⟨hb, hh⟩ := hout (hundoing.outpoints hp) (hxs.outpoints hp).1 (hxs.outpoints hp).2
    exact ⟨hb.trans (hL.outpoints hp).1, hh.trans (hL.outpoints hp).2⟩
  · exact ⟨(hnames (hundoing.names hp) (hxs.registry hp).1).trans (hL.registry hp).1,
      (hetchings (hundoing.etchings hp) (hxs.registry hp).2).trans (hL.registry hp).2⟩

namespace Journaled

variable {lo : Nat} {fs : List LedgerFrame} {s s' : Store}

theorem init (config : Config) : Journaled lib network node admits p
    (lib.firstRuneHeight network) [] (Store.empty config) where
  replay := .nil
  now := by
    rw [Store.ledger_empty]
    exact .refl _ _
  window := .empty _ _ _
  log i f h := by simp at h

/-! ### Indexing pushes a frame -/

theorem index (h : Journaled lib network node admits p lo fs s)
    {b : BlockData} {ord : HashOrder} (hadmits : admits (items fs ++ [b]))
    (hrun : Proc.Runs (node (items fs ++ [b]))
      ((indexBlock lib ord network (s.nextBlock lib network).1 b).run s) (.ok s' ())) :
    ∃ lo' r, Journaled lib network node admits p lo' (⟨b, r, s'.ledger⟩ :: fs)
      (Reorg.pruneChangeRecord network (s.nextBlock lib network).1 s') := by
  rw [h.window.nextBlock] at hrun ⊢
  have hw := indexBlock_writes hrun
  have hend := hw.rowsEnd h.window.rowsBelow
  obtain ⟨lo', hlo, hwin⟩ := h.window.step hrun
  obtain ⟨r, hr⟩ := hw.records
  have hrecord : s'.heightToChangeRecord.get? (lib.firstRuneHeight network + (items fs).length) =
      some r := by rw [hr, FinMap.get?_insert_self]
  have hget := pruneChangeRecord_get? network (lib.firstRuneHeight network + (items fs).length)
  have hledger := pruneChangeRecord_ledger network hend
  refine ⟨lo', r, .cons h.replay ⟨hadmits, ord, s, s', h.window.rowsBelow, h.now, hrun, hrecord,
    .refl _ _⟩, ?_, by rw [items_cons]; exact hwin, fun i f hf hlo' => ?_⟩
  · rw [hledger]
    exact .refl _ _
  · -- a height in the window survives pruning
    have hkept : kept network (lib.firstRuneHeight network + (items fs).length)
        (lib.firstRuneHeight network + i) := by
      have hi : i < fs.length + 1 := by
        have := (List.getElem?_eq_some_iff.mp hf).1
        simpa using this
      have hmem := (hwin.records (lib.firstRuneHeight network + i)).mpr
        ⟨hlo', by simp only [List.length_append, length_items, List.length_singleton]; omega⟩
      by_contra hno
      rw [FinMap.mem_keys, (hget _ s').2.1, if_neg hno] at hmem
      cases hmem
    rw [(hget _ s').2.1, (hget _ s').2.2.1, (hget _ s').2.2.2, if_pos hkept, if_pos hkept,
      if_pos hkept]
    rw [List.reverse_cons] at hf
    -- the older heights keep their records, the new one has the record just written
    by_cases hi : i < fs.length
    · rw [List.getElem?_append_left (by simpa using hi)] at hf
      have hne : lib.firstRuneHeight network + i ≠
          lib.firstRuneHeight network + (items fs).length := by
        rw [length_items]
        omega
      rw [hr, FinMap.get?_insert_ne _ _ hne, hw.runeRows _ hne, hw.reservedRows _ hne]
      exact h.log i f hf (by omega)
    · have hbound := (List.getElem?_eq_some_iff.mp hf).1
      rw [List.length_append, List.length_reverse, List.length_singleton] at hbound
      obtain rfl : i = fs.length := by omega
      rw [List.getElem?_append_right (by simp)] at hf
      simp only [List.length_reverse, Nat.sub_self, List.getElem?_cons_zero,
        Option.some.injEq] at hf
      subst hf
      rw [length_items] at hrecord hend
      exact ⟨hrecord, hend.runesRow_eq, hend.reservedRow_eq⟩

/-! ### Rolling back pops one -/

/-- Without its last height, the state has the ledger of the frames below. -/
theorem agrees_dropHeight {f g : LedgerFrame} {rest : List LedgerFrame}
    (h : Journaled lib network node admits p lo (f :: g :: rest) s)
    (hlo : lo < lib.firstRuneHeight network + (rest.length + 1)) {x : Store}
    (hsame : Reorg.SameHeights s x) (hentries : x.ledger.entries = g.after.entries)
    (hout : p.outpoints → x.ledger.balances = g.after.balances ∧
      x.ledger.heights = g.after.heights)
    (hreg : p.registry → x.ledger.names = g.after.names ∧
      x.ledger.etchings = g.after.etchings) :
    Agrees p (Reorg.dropHeight (lib.firstRuneHeight network + (rest.length + 1)) x).ledger
      g.after := by
  have hlen : (items (f :: g :: rest)).length = rest.length + 2 := by
    rw [length_items]
    rfl
  obtain ⟨-, hrunes, hreserved⟩ := h.log rest.length g (by simp) (by omega)
  -- the rows now end one height lower
  have hrow : ∀ {m m' : FinMap Nat Nat} {n : Nat}, m' = m →
      (∀ k, k ∈ m.keys ↔ lo ≤ k ∧ k < lib.firstRuneHeight network + (rest.length + 2)) →
      m.get? (lib.firstRuneHeight network + rest.length) = some n →
      (∀ k ∈ (m'.erase (lib.firstRuneHeight network + (rest.length + 1))).keys,
        k ≤ lib.firstRuneHeight network + rest.length) ∧
      (m'.erase (lib.firstRuneHeight network + (rest.length + 1))).get?
        (lib.firstRuneHeight network + rest.length) = some n := by
    rintro m _ n rfl hkeys hget
    constructor
    · intro k hk
      rw [FinMap.mem_keys, FinMap.get?_erase] at hk
      split at hk
      · cases hk
      · have := (hkeys k).mp (FinMap.mem_keys.mpr hk)
        omega
    · rw [FinMap.get?_erase, if_neg (by omega), hget]
  have hwin₁ := h.window.runeRows
  have hwin₂ := h.window.reservedRows
  rw [hlen] at hwin₁ hwin₂
  obtain ⟨hmax₁, hget₁⟩ := hrow hsame.runeRows hwin₁ hrunes
  obtain ⟨hmax₂, hget₂⟩ := hrow hsame.reservedRows hwin₂ hreserved
  exact ⟨hentries, Store.memStatisticRunes_of_last hmax₁ hget₁,
    Store.memStatisticReservedRunes_of_last hmax₂ hget₂, hout, hreg⟩

/-- Rolling back the last height returns and takes its frame away. -/
theorem rollback {f : LedgerFrame} {rest : List LedgerFrame}
    (h : Journaled lib network node admits p lo (f :: rest) s)
    (hsound : ∀ chain, admits chain → p.Sound lib chain)
    (hlo : lo < lib.firstRuneHeight network + rest.length) (ord : HashOrder) :
    ∃ s', (Reorg.rollbackHeight ord (lib.firstRuneHeight network + rest.length)).run s =
        .ok s' () ∧ Journaled lib network node admits p lo rest s' := by
  have hfirst := h.window.first_le
  -- the window keeps at least one block below the one that goes
  cases rest with
  | nil =>
    rw [List.length_nil] at hlo
    omega
  | cons g rest =>
    obtain ⟨hrecord, -⟩ := h.log (rest.length + 1) f (by simp) hlo.le
    cases h.replay with
    | cons below top =>
      have hbelow := Replays.below below hsound
      rw [← length_items] at hbelow
      -- the record of the top frame leads back to the frame below
      obtain ⟨x, hundo, hentries, hout, hreg⟩ := top.undo hsound hbelow ord
        (lib.firstRuneHeight network + (rest.length + 1)) h.now
      have hsame := Reorg.undoRecord_sameHeights hundo
      have hrun := Reorg.rollbackHeight_eq_ok.mpr ⟨x, .inr ⟨f.record, hrecord, hundo⟩, rfl⟩
      refine ⟨_, hrun, below, h.agrees_dropHeight hlo hsame hentries hout hreg, ?_,
        fun i g' hg' hlo' => ?_⟩
      · have hwin := h.window.rollback (by rw [length_items]; rfl) hlo hrun
        rw [items_cons, List.dropLast_concat] at hwin
        exact hwin
      · have hi := (List.getElem?_eq_some_iff.mp hg').1
        rw [List.length_reverse, List.length_cons] at hi
        have hne : lib.firstRuneHeight network + i ≠
            lib.firstRuneHeight network + (rest.length + 1) := by omega
        have hkeep : ∀ {V : Type} {m m' : FinMap Nat V}, m' = m →
            (m'.erase (lib.firstRuneHeight network + (rest.length + 1))).get?
              (lib.firstRuneHeight network + i) = m.get? (lib.firstRuneHeight network + i) := by
          rintro V m _ rfl
          rw [FinMap.get?_erase, if_neg hne]
        have hlog := h.log i g' (by
          rw [List.reverse_cons, List.getElem?_append_left (by simpa using hi)]
          exact hg') hlo'
        exact ⟨(hkeep hsame.records).trans hlog.1, (hkeep hsame.runeRows).trans hlog.2.1,
          (hkeep hsame.reservedRows).trans hlog.2.2⟩

/-- A rollback inside the window returns and takes its frames away. -/
theorem handleReorg (h : Journaled lib network node admits p lo fs s)
    (hsound : ∀ chain, admits chain → p.Sound lib chain) {depth : Nat} (hdepth : 1 ≤ depth)
    (hle : depth ≤ lib.firstRuneHeight network + fs.length)
    (hlo : lo ≤ lib.firstRuneHeight network + fs.length - depth) (ord : HashOrder) :
    ∃ s', (Reorg.handleReorg ord (lib.firstRuneHeight network + fs.length) depth).run s =
        .ok s' () ∧ Journaled lib network node admits p lo (fs.drop (depth - 1)) s' := by
  have hfirst := h.window.first_le
  -- with `k + 1` as the next height, rolling back `k` drops one more frame
  have hstep : ∀ k s, lib.firstRuneHeight network + fs.length - depth < k →
      k < lib.firstRuneHeight network + fs.length →
      Journaled lib network node admits p lo
        (fs.drop (lib.firstRuneHeight network + fs.length - (k + 1))) s →
      ∃ s', (Reorg.rollbackHeight ord k).run s = .ok s' () ∧
        Journaled lib network node admits p lo
          (fs.drop (lib.firstRuneHeight network + fs.length - k)) s' := by
    intro k s hk hlt hJ
    obtain ⟨n, hn⟩ : ∃ n, n = lib.firstRuneHeight network + fs.length - (k + 1) := ⟨_, rfl⟩
    have hnlt : n < fs.length := by omega
    rw [← hn, List.drop_eq_getElem_cons hnlt] at hJ
    have hlen : (fs.drop (n + 1)).length = k - lib.firstRuneHeight network := by
      rw [List.length_drop]
      omega
    obtain ⟨s', hrun, hJ'⟩ := hJ.rollback hsound (by omega) ord
    rw [hlen, show lib.firstRuneHeight network + (k - lib.firstRuneHeight network) = k by
      omega] at hrun
    rw [show n + 1 = lib.firstRuneHeight network + fs.length - k by omega] at hJ'
    exact ⟨s', hrun, hJ'⟩
  have h₀ : Journaled lib network node admits p lo (fs.drop (lib.firstRuneHeight network +
      fs.length - (lib.firstRuneHeight network + fs.length))) s := by
    rw [Nat.sub_self]
    exact h
  obtain ⟨s', hrun, hP⟩ := Reorg.handleReorg_total
    (P := fun k s => Journaled lib network node admits p lo
      (fs.drop (lib.firstRuneHeight network + fs.length - k)) s) hdepth hle hstep h₀
  rw [show lib.firstRuneHeight network + fs.length -
    (lib.firstRuneHeight network + fs.length - (depth - 1)) = depth - 1 by omega] at hP
  exact ⟨s', hrun, hP⟩

/-- A rollback that `detect_reorg` asks for returns and takes its frames away. -/
theorem detected (h : Journaled lib network node admits p lo fs s)
    (hsound : ∀ chain, admits chain → p.Sound lib chain) {ans : Answers} {prev : BlockHash}
    {s₁ : Store} {height depth : Nat}
    (hdetect : Proc.Runs ans ((Reorg.detectReorg lib network (s.nextBlock lib network).2 prev
      (s.nextBlock lib network).1).run s) (.ok s₁ (.error (.recoverable height depth))))
    (ord : HashOrder) :
    ∃ s', (Reorg.handleReorg ord height depth).run s = .ok s' () ∧
      Journaled lib network node admits p lo (fs.drop (depth - 1)) s' := by
  obtain ⟨-, hheight, hdepth, hle, hlo⟩ := h.window.detected hdetect
  rw [length_items] at hheight
  subst hheight
  exact h.handleReorg hsound hdepth hle hlo ord

end Journaled

/-! ### Runs -/

/-- Every run ends in the state of a replay of the chain it holds. -/
theorem Run.journaled {chain : List BlockData} {s : Store}
    (h : Run lib network node admits chain s)
    (hsound : ∀ chain, admits chain → p.Sound lib chain) :
    ∃ lo fs, items fs = chain ∧ Journaled lib network node admits p lo fs s := by
  induction h with
  | init config => exact ⟨_, [], rfl, .init config⟩
  | index run admitted indexed ih =>
    obtain ⟨lo, fs, rfl, hJ⟩ := ih
    obtain ⟨lo', r, hJ'⟩ := hJ.index admitted indexed
    exact ⟨lo', _, items_cons _ _, hJ'⟩
  | @reorg chain s s' prev height depth ord run detected undone ih =>
    obtain ⟨lo, fs, rfl, hJ⟩ := ih
    obtain ⟨s'', hrun, hJ'⟩ := hJ.detected hsound detected ord
    rw [undone] at hrun
    cases hrun
    exact ⟨lo, _, by rw [items_drop, length_items], hJ'⟩

/-- What every block preserves holds of the ledger of every replay, of which only the parts
    in `p` are known. -/
theorem Journaled.invariant {P : List BlockData → Ledger → Prop}
    (hagrees : ∀ chain L L', Agrees p L L' → P chain L → P chain L')
    (h₀ : P [] Ledger.empty)
    (hstep : ∀ chain b ord s s', admits (chain ++ [b]) →
      s.RowsBelow (lib.firstRuneHeight network + chain.length) → P chain s.ledger →
      Proc.Runs (node (chain ++ [b]))
        ((indexBlock lib ord network (lib.firstRuneHeight network + chain.length) b).run s)
        (.ok s' ()) → P (chain ++ [b]) s'.ledger)
    {lo : Nat} {fs : List LedgerFrame} {s : Store}
    (h : Journaled lib network node admits p lo fs s) : P (items fs) s.ledger := by
  refine hagrees _ _ _ h.now.symm (h.replay.invariant h₀ ?_)
  intro chain b r L L' hP hblock
  obtain ⟨ord, s₁, s₂, hrows, hL, hrun, -, hL'⟩ := hblock.indexed
  exact hagrees _ _ _ hL' (hstep chain b ord s₁ s₂ hblock.admitted hrows
    (hagrees _ _ _ hL.symm hP) hrun)

/-- The same for runs. -/
theorem Run.invariant {P : List BlockData → Ledger → Prop}
    (hsound : ∀ chain, admits chain → p.Sound lib chain)
    (hagrees : ∀ chain L L', Agrees p L L' → P chain L → P chain L')
    (h₀ : P [] Ledger.empty)
    (hstep : ∀ chain b ord s s', admits (chain ++ [b]) →
      s.RowsBelow (lib.firstRuneHeight network + chain.length) → P chain s.ledger →
      Proc.Runs (node (chain ++ [b]))
        ((indexBlock lib ord network (lib.firstRuneHeight network + chain.length) b).run s)
        (.ok s' ()) → P (chain ++ [b]) s'.ledger)
    {chain : List BlockData} {s : Store} (h : Run lib network node admits chain s) :
    P chain s.ledger := by
  obtain ⟨lo, fs, rfl, hJ⟩ := h.journaled hsound
  exact hJ.invariant hagrees h₀ hstep

end RunesIndexer
