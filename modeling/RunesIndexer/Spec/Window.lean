import RunesIndexer.Spec.Rollback
import Mathlib.Data.List.Chain

/-! # The window of undoable blocks

    Four maps are keyed by height: headers, change records and the two rows of
    statistics. `Window lo chain s` says that all four hold exactly the heights
    from `lo` to the tip of the held chain, and that the headers are those of
    its blocks. Indexing, pruning and rolling back each preserve it, so it holds
    along every run of the loop (`undoWindow`).
-/

namespace RunesIndexer

open Resumption MonadicFold

/-- The four maps by height hold the heights from `lo` to the tip of `chain`. -/
structure Window (lib : Crates) (network : BitcoinNetwork) (lo : Nat) (chain : List BlockData)
    (s : Store) : Prop where
  first_le : lib.firstRuneHeight network ≤ lo
  lo_le : lo ≤ lib.firstRuneHeight network + (chain.length - 1)
  headers : ∀ k, s.heightToBlockHeader.get? k =
    if lo ≤ k then (chain[k - lib.firstRuneHeight network]?).map (·.header) else none
  records : ∀ k, k ∈ s.heightToChangeRecord.keys ↔
    lo ≤ k ∧ k < lib.firstRuneHeight network + chain.length
  runeRows : ∀ k, k ∈ s.heightToStatisticRunes.keys ↔
    lo ≤ k ∧ k < lib.firstRuneHeight network + chain.length
  reservedRows : ∀ k, k ∈ s.heightToStatisticReservedRunes.keys ↔
    lo ≤ k ∧ k < lib.firstRuneHeight network + chain.length

theorem isSome_getElem? {α : Type} {l : List α} {i : Nat} : l[i]?.isSome ↔ i < l.length := by
  rw [Option.isSome_iff_ne_none, Ne, List.getElem?_eq_none_iff, not_le]

namespace Window

variable {lib : Crates} {network : BitcoinNetwork} {lo : Nat} {chain : List BlockData}
  {s s' : Store}

theorem mem_headers (h : Window lib network lo chain s) (k : Nat) :
    k ∈ s.heightToBlockHeader.keys ↔ lo ≤ k ∧ k < lib.firstRuneHeight network + chain.length := by
  have hfirst := h.first_le
  rw [FinMap.mem_keys, h.headers]
  split
  · next hlo =>
    rw [Option.isSome_map, isSome_getElem?]
    omega
  · next hlo => simp [hlo]

theorem empty (lib : Crates) (network : BitcoinNetwork) (config : Config) :
    Window lib network (lib.firstRuneHeight network) [] (Store.empty config) where
  first_le := le_refl _
  lo_le := Nat.le_add_right _ _
  headers k := by simp [Store.empty]
  records k := by simp [Store.empty, FinMap.mem_keys]
  runeRows k := by simp [Store.empty, FinMap.mem_keys]
  reservedRows k := by simp [Store.empty, FinMap.mem_keys]

/-- The last stored header is that of the last block. -/
theorem last?_headers (h : Window lib network lo chain s) :
    s.heightToBlockHeader.last? = chain.getLast?.map fun b =>
      (lib.firstRuneHeight network + (chain.length - 1), b.header) := by
  cases hlast : chain.getLast? with
  | none =>
    rw [List.getLast?_eq_none_iff] at hlast
    rw [Option.map_none, FinMap.last?_eq_none]
    intro k
    rw [h.headers, hlast]
    simp
  | some b =>
    have hne : chain ≠ [] := fun h0 => by simp [h0] at hlast
    have hlen := List.length_pos_iff.mpr hne
    have hlo := h.lo_le
    rw [Option.map_some, FinMap.last?_eq_some]
    refine ⟨?_, fun k hk => ?_⟩
    · rw [List.getLast?_eq_getElem?] at hlast
      rw [h.headers, if_pos (by omega), Nat.add_sub_cancel_left, hlast]
      rfl
    · have := (h.mem_headers k).mp hk
      omega

/-- The next block comes after the held chain and must name its tip. -/
theorem nextBlock (h : Window lib network lo chain s) :
    s.nextBlock lib network = (lib.firstRuneHeight network + chain.length,
      chain.getLast?.map fun b => lib.blockHash b.header) := by
  unfold Store.nextBlock Store.memLatestBlock
  rw [h.last?_headers]
  cases hlast : chain.getLast? with
  | none =>
    rw [List.getLast?_eq_none_iff] at hlast
    simp [hlast]
  | some b =>
    have hlen : 0 < chain.length := by
      cases chain with
      | nil => simp at hlast
      | cons b l => simp
    simp only [Option.map_some, Prod.mk.injEq, and_true]
    omega

theorem latestHeight (h : Window lib network lo chain s) :
    s.memLatestBlockHeight =
      if chain = [] then none else some (lib.firstRuneHeight network + (chain.length - 1)) := by
  unfold Store.memLatestBlockHeight
  rw [h.last?_headers]
  cases hlast : chain.getLast? with
  | none => rw [if_pos (List.getLast?_eq_none_iff.mp hlast)]; rfl
  | some b =>
    have hne : chain ≠ [] := fun h0 => by simp [h0] at hlast
    rw [if_neg hne]
    rfl

theorem rowsBelow (h : Window lib network lo chain s) :
    s.RowsBelow (lib.firstRuneHeight network + chain.length) where
  runes k hk := ((h.runeRows k).mp hk).2
  reserved k hk := ((h.reservedRows k).mp hk).2

/-- The configuration is no part of it. -/
theorem control (h : Window lib network lo chain s) (config : Config) (flag : Bool) :
    Window lib network lo chain { s with config := config, shuttingDown := flag } :=
  ⟨h.first_le, h.lo_le, h.headers, h.records, h.runeRows, h.reservedRows⟩

/-! ### Indexing -/

/-- A new block extends the window at its end. -/
theorem index (h : Window lib network lo chain s) {b : BlockData}
    (hw : BlockWrites (lib.firstRuneHeight network + chain.length) b.header s s') :
    Window lib network lo (chain ++ [b]) s' := by
  have hfirst := h.first_le
  have hlo := h.lo_le
  obtain ⟨record, hrecord⟩ := hw.records
  have hend := hw.rowsEnd h.rowsBelow
  -- one argument for the three rows that gain the new height and no other
  have hrow : ∀ {V : Type} {m m' : FinMap Nat V},
      (∀ k, k ≠ lib.firstRuneHeight network + chain.length → m'.get? k = m.get? k) →
      lib.firstRuneHeight network + chain.length ∈ m'.keys →
      (∀ k, k ∈ m.keys ↔ lo ≤ k ∧ k < lib.firstRuneHeight network + chain.length) →
      ∀ k, k ∈ m'.keys ↔ lo ≤ k ∧ k < lib.firstRuneHeight network + (chain ++ [b]).length := by
    intro V m m' hothers hnew hkeys k
    rw [List.length_append, List.length_singleton]
    by_cases hk : k = lib.firstRuneHeight network + chain.length
    · subst hk
      simp only [hnew, true_iff]
      omega
    · rw [FinMap.mem_keys, hothers k hk, ← FinMap.mem_keys, hkeys]
      omega
  have hrecords : ∀ k, k ≠ lib.firstRuneHeight network + chain.length →
      s'.heightToChangeRecord.get? k = s.heightToChangeRecord.get? k := by
    intro k hk
    rw [hrecord, FinMap.get?_insert_ne _ _ hk]
  have hnew : lib.firstRuneHeight network + chain.length ∈ s'.heightToChangeRecord.keys := by
    rw [hrecord, FinMap.mem_keys, FinMap.get?_insert_self]
    rfl
  refine ⟨hfirst, ?_, fun k => ?_, hrow hrecords hnew h.records,
    hrow hw.runeRows hend.runesRow h.runeRows, hrow hw.reservedRows hend.reservedRow h.reservedRows⟩
  · rw [List.length_append, List.length_singleton]
    omega
  · rw [hw.headers, FinMap.get?_insert]
    by_cases hk : k = lib.firstRuneHeight network + chain.length
    · subst hk
      rw [if_pos rfl, if_pos (by omega), Nat.add_sub_cancel_left]
      simp
    · rw [if_neg hk, h.headers]
      by_cases hlok : lo ≤ k
      · rw [if_pos hlok, if_pos hlok]
        by_cases hlt : k - lib.firstRuneHeight network < chain.length
        · rw [List.getElem?_append_left hlt]
        · rw [List.getElem?_eq_none (by omega), List.getElem?_eq_none (by simp; omega)]
      · rw [if_neg hlok, if_neg hlok]

/-! ### Pruning -/

end Window

/-- Which entries of a map by height pruning at `height` keeps. -/
def kept (network : BitcoinNetwork) (height k : Nat) : Prop :=
  height + 1 ≤ k + Store.getMaxRecoverableReorgDepth network

instance (network : BitcoinNetwork) (height k : Nat) : Decidable (kept network height k) := by
  unfold kept
  infer_instance

theorem getMaxRecoverableReorgDepth_pos (network : BitcoinNetwork) :
    0 < Store.getMaxRecoverableReorgDepth network := by
  cases network <;> decide

theorem get?_above {V : Type} (height k : Nat) (m : FinMap Nat V) :
    (Store.above height m).get? k = if height < k then m.get? k else none := by
  simp [Store.above, FinMap.get?_filterKeys]

/-- What `prune_change_record` does to the maps by height. -/
theorem pruneChangeRecord_get? (network : BitcoinNetwork) (height k : Nat) (s : Store) :
    (Reorg.pruneChangeRecord network height s).heightToBlockHeader.get? k =
      (if kept network height k then s.heightToBlockHeader.get? k else none) ∧
    (Reorg.pruneChangeRecord network height s).heightToChangeRecord.get? k =
      (if kept network height k then s.heightToChangeRecord.get? k else none) ∧
    (Reorg.pruneChangeRecord network height s).heightToStatisticRunes.get? k =
      (if kept network height k then s.heightToStatisticRunes.get? k else none) ∧
    (Reorg.pruneChangeRecord network height s).heightToStatisticReservedRunes.get? k =
      (if kept network height k then s.heightToStatisticReservedRunes.get? k else none) := by
  have hpos := getMaxRecoverableReorgDepth_pos network
  unfold Reorg.pruneChangeRecord
  split
  · next hle =>
    have hkept : kept network height k ↔
        height - Store.getMaxRecoverableReorgDepth network < k := by
      unfold kept
      omega
    simp only [hkept]
    refine ⟨get?_above _ _ _, get?_above _ _ _, ?_, get?_above _ _ _⟩
    refine (FinMap.get?_erase _ _ _).trans ?_
    rw [get?_above]
    split <;> split <;> first | rfl | omega
  · next hlt =>
    have hkept : kept network height k := by
      unfold kept
      omega
    simp [hkept]

/-- Pruning changes no content when the rows of the last height stay. -/
theorem pruneChangeRecord_ledger (network : BitcoinNetwork) {height : Nat} {s : Store}
    (h : s.RowsEndAt height) : (Reorg.pruneChangeRecord network height s).ledger = s.ledger := by
  have hpos := getMaxRecoverableReorgDepth_pos network
  -- the last height is kept, and the counters are those of the last height
  have hlast : kept network height height := by
    unfold kept
    omega
  have hget := fun k => pruneChangeRecord_get? network height k s
  have hruns : (Reorg.pruneChangeRecord network height s).memStatisticRunes =
      s.memStatisticRunes := by
    refine Store.memStatisticRunes_of_last (fun k hk => ?_)
      ((hget height).2.2.1.trans ((if_pos hlast).trans h.runesRow_eq))
    rw [FinMap.mem_keys, (hget k).2.2.1] at hk
    split at hk
    · exact h.runes k (FinMap.mem_keys.mpr hk)
    · cases hk
  have hreserved : (Reorg.pruneChangeRecord network height s).memStatisticReservedRunes =
      s.memStatisticReservedRunes := by
    refine Store.memStatisticReservedRunes_of_last (fun k hk => ?_)
      ((hget height).2.2.2.trans ((if_pos hlast).trans h.reservedRow_eq))
    rw [FinMap.mem_keys, (hget k).2.2.2] at hk
    split at hk
    · exact h.reserved k (FinMap.mem_keys.mpr hk)
    · cases hk
  ext : 1
  case runes => exact hruns
  case reservedRunes => exact hreserved
  all_goals
    unfold Reorg.pruneChangeRecord
    split <;> rfl

namespace Window

variable {lib : Crates} {network : BitcoinNetwork} {lo : Nat} {chain : List BlockData}
  {s s' : Store}

/-- Pruning after the block at the tip raises the start of the window. -/
theorem prune (h : Window lib network lo chain s) (hne : chain ≠ []) :
    Window lib network
      (max lo (lib.firstRuneHeight network + chain.length -
        Store.getMaxRecoverableReorgDepth network)) chain
      (Reorg.pruneChangeRecord network
        (lib.firstRuneHeight network + (chain.length - 1)) s) := by
  have hpos := getMaxRecoverableReorgDepth_pos network
  have hfirst := h.first_le
  have hlo := h.lo_le
  have hlen := List.length_pos_iff.mpr hne
  have hget := fun k => pruneChangeRecord_get? network
    (lib.firstRuneHeight network + (chain.length - 1)) k s
  have hkept : ∀ k, kept network (lib.firstRuneHeight network + (chain.length - 1)) k ↔
      lib.firstRuneHeight network + chain.length -
        Store.getMaxRecoverableReorgDepth network ≤ k := by
    intro k
    unfold kept
    omega
  -- one argument for the three rows that are pruned alike
  have hrow : ∀ {V : Type} {m m' : FinMap Nat V},
      (∀ k, m'.get? k = if kept network (lib.firstRuneHeight network + (chain.length - 1)) k
        then m.get? k else none) →
      (∀ k, k ∈ m.keys ↔ lo ≤ k ∧ k < lib.firstRuneHeight network + chain.length) →
      ∀ k, k ∈ m'.keys ↔ max lo (lib.firstRuneHeight network + chain.length -
        Store.getMaxRecoverableReorgDepth network) ≤ k ∧
        k < lib.firstRuneHeight network + chain.length := by
    intro V m m' hm hkeys k
    rw [FinMap.mem_keys, hm]
    by_cases hk : kept network (lib.firstRuneHeight network + (chain.length - 1)) k
    · rw [if_pos hk, ← FinMap.mem_keys, hkeys]
      rw [hkept] at hk
      omega
    · rw [if_neg hk]
      rw [hkept] at hk
      simp only [Option.isSome_none, Bool.false_eq_true, false_iff]
      omega
  refine ⟨by omega, by omega, fun k => ?_, hrow (fun k => (hget k).2.1) h.records,
    hrow (fun k => (hget k).2.2.1) h.runeRows, hrow (fun k => (hget k).2.2.2) h.reservedRows⟩
  rw [(hget k).1, h.headers]
  simp only [hkept]
  split
  · split
    · rw [if_pos (by omega)]
    · rw [if_neg (by omega)]
  · rw [if_neg (by omega)]

/-! ### Rolling back -/

/-- Rolling back the tip shortens the window at its end. -/
theorem rollback {ord : HashOrder} {k : Nat} (h : Window lib network lo chain s)
    (hk : k + 1 = lib.firstRuneHeight network + chain.length) (hlo : lo < k)
    (hrun : (Reorg.rollbackHeight ord k).run s = .ok s' ()) :
    Window lib network lo chain.dropLast s' := by
  obtain ⟨s₁, hs₁, rfl⟩ := Reorg.rollbackHeight_eq_ok.mp hrun
  have hsame : Reorg.SameHeights s s₁ := by
    rcases hs₁ with ⟨-, rfl⟩ | ⟨record, -, hundo⟩
    · exact .refl _
    · exact Reorg.undoRecord_sameHeights hundo
  have hfirst := h.first_le
  -- the three rows that lose the same height
  have hrow : ∀ {V : Type} {m : FinMap Nat V},
      (∀ k, k ∈ m.keys ↔ lo ≤ k ∧ k < lib.firstRuneHeight network + chain.length) →
      ∀ k', k' ∈ (m.erase k).keys ↔
        lo ≤ k' ∧ k' < lib.firstRuneHeight network + chain.dropLast.length := by
    intro V m hkeys k'
    rw [FinMap.mem_keys, FinMap.get?_erase, List.length_dropLast]
    by_cases hk' : k' = k
    · simp only [hk', if_true, Option.isSome_none, Bool.false_eq_true, false_iff]
      omega
    · rw [if_neg hk', ← FinMap.mem_keys, hkeys]
      omega
  refine ⟨hfirst, ?_, fun k' => ?_, ?_, ?_, ?_⟩
  · rw [List.length_dropLast]
    omega
  · refine (FinMap.get?_erase _ _ _).trans ?_
    have hheaders : (((s₁.memRemoveChangeRecord k).memRemoveStatisticRunes
        k).memRemoveStatisticReservedRunes k).heightToBlockHeader = s.heightToBlockHeader :=
      hsame.headers
    rw [hheaders, h.headers, List.dropLast_eq_take, List.getElem?_take]
    by_cases hk' : k' = k
    · rw [if_pos hk', if_pos (by omega), if_neg (by omega)]
      rfl
    · rw [if_neg hk']
      split
      · split
        · rfl
        · rw [List.getElem?_eq_none (by omega)]
      · rfl
  · exact hrow (m := s₁.heightToChangeRecord) (hsame.records ▸ h.records)
  · exact hrow (m := s₁.heightToStatisticRunes) (hsame.runeRows ▸ h.runeRows)
  · exact hrow (m := s₁.heightToStatisticReservedRunes) (hsame.reservedRows ▸ h.reservedRows)

/-- A rollback that `detect_reorg` asks for stays inside the window. -/
theorem detected (h : Window lib network lo chain s) {ans : Answers} {prev : BlockHash}
    {s' : Store} {height depth : Nat}
    (hdetect : Proc.Runs ans ((Reorg.detectReorg lib network (s.nextBlock lib network).2 prev
      (s.nextBlock lib network).1).run s) (.ok s' (.error (.recoverable height depth)))) :
    s' = s ∧ height = lib.firstRuneHeight network + chain.length ∧ 1 ≤ depth ∧
      depth ≤ height ∧ lo ≤ height - depth := by
  obtain ⟨hs, hheight, hdepth, hle, header, hheader⟩ := Reorg.detectReorg_recoverable hdetect
  have hmem := (h.mem_headers _).mp (FinMap.mem_keys_of_get? hheader)
  rw [h.nextBlock] at hheight hle hmem
  subst hheight
  exact ⟨hs, rfl, hdepth, hle, hmem.1⟩

/-- A whole rollback inside the window. -/
theorem handleReorg {ord : HashOrder} {height depth : Nat} (h : Window lib network lo chain s)
    (hheight : height = lib.firstRuneHeight network + chain.length) (hdepth : 1 ≤ depth)
    (hle : depth ≤ height) (hlo : lo ≤ height - depth)
    (hrun : (Reorg.handleReorg ord height depth).run s = .ok s' ()) :
    Window lib network lo (chain.take (chain.length - (depth - 1))) s' := by
  have hfirst := h.first_le
  have hresult := Reorg.handleReorg_invariant
    (P := fun k s => Window lib network lo (chain.take (k - lib.firstRuneHeight network)) s)
    hdepth hle ?_ (by rw [hheight, Nat.add_sub_cancel_left, List.take_length]; exact h) hrun
  · rw [show height - (depth - 1) - lib.firstRuneHeight network = chain.length - (depth - 1) by
      omega] at hresult
    exact hresult
  · intro k s s' hk hlt hwin hstep
    have := hwin.rollback (k := k) (by rw [List.length_take]; omega) (by omega) hstep
    rw [List.dropLast_eq_take, List.take_take, List.length_take] at this
    rw [show min (min (k + 1 - lib.firstRuneHeight network) chain.length - 1)
      (k + 1 - lib.firstRuneHeight network) = k - lib.firstRuneHeight network by omega] at this
    exact this

end Window

end RunesIndexer
