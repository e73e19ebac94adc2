import RunesIndexer.Spec.Undo
import RunesIndexer.Spec.Run

/-! # A block leaves an exact record

    The invariant of `Spec.Undo` along `index_block`. What a block creates is new to
    the ledger it started from: entries are keyed by position, outpoints and
    etchings by a txid that the chain does not have yet, and a reserved name belongs
    to one position. How much of the ledger is considered is a parameter, since
    the entries need none of the assumptions on txids and names.
-/

namespace RunesIndexer

open Resumption MonadicFold RuneUpdater

/-! ### Parts of the ledger -/

/-- The parts considered beyond entries and counters. -/
structure Scope where
  outpoints : Bool
  registry : Bool

/-- Entries only. -/
def Scope.entries : Scope := ⟨false, false⟩

/-- Entries and outpoints. -/
def Scope.amounts : Scope := ⟨true, false⟩

def Scope.all : Scope := ⟨true, true⟩

/-- The ledgers are the same as far as `p` goes. -/
structure Agrees (p : Scope) (L L' : Ledger) : Prop where
  entries : L.entries = L'.entries
  runes : L.runes = L'.runes
  reservedRunes : L.reservedRunes = L'.reservedRunes
  outpoints : p.outpoints → L.balances = L'.balances ∧ L.heights = L'.heights
  registry : p.registry → L.names = L'.names ∧ L.etchings = L'.etchings

namespace Agrees

theorem refl (p : Scope) (L : Ledger) : Agrees p L L :=
  ⟨rfl, rfl, rfl, fun _ => ⟨rfl, rfl⟩, fun _ => ⟨rfl, rfl⟩⟩

theorem symm {p : Scope} {L L' : Ledger} (h : Agrees p L L') : Agrees p L' L :=
  ⟨h.entries.symm, h.runes.symm, h.reservedRunes.symm,
    fun hp => ⟨(h.outpoints hp).1.symm, (h.outpoints hp).2.symm⟩,
    fun hp => ⟨(h.registry hp).1.symm, (h.registry hp).2.symm⟩⟩

theorem trans {p : Scope} {L₁ L₂ L₃ : Ledger} (h : Agrees p L₁ L₂) (h' : Agrees p L₂ L₃) :
    Agrees p L₁ L₃ :=
  ⟨h.entries.trans h'.entries, h.runes.trans h'.runes, h.reservedRunes.trans h'.reservedRunes,
    fun hp => ⟨(h.outpoints hp).1.trans (h'.outpoints hp).1,
      (h.outpoints hp).2.trans (h'.outpoints hp).2⟩,
    fun hp => ⟨(h.registry hp).1.trans (h'.registry hp).1,
      (h.registry hp).2.trans (h'.registry hp).2⟩⟩

theorem eq {L L' : Ledger} (h : Agrees .all L L') : L = L' :=
  Ledger.ext (h.outpoints rfl).1 (h.outpoints rfl).2 h.entries (h.registry rfl).1
    (h.registry rfl).2 h.runes h.reservedRunes

end Agrees

/-! ### What is new to a ledger -/

/-- What the crates say about reserved names: each belongs to one position. -/
structure ReservedNames (lib : Crates) : Prop where
  reserved : ∀ height i, i < usizeBound → lib.isReserved (lib.reserved height i) = true
  injective : ∀ height i height' i', i < usizeBound → i' < usizeBound →
    lib.reserved height i = lib.reserved height' i' → height = height' ∧ i = i'

theorem reservedNames_sample : ReservedNames Sample.crates where
  reserved height i _ := by
    simp only [Sample.crates, decide_eq_true_eq]
    omega
  injective height i height' i' hi hi' heq := by
    simp only [Sample.crates, Rune.mk.injEq, usizeBound] at heq hi hi'
    omega

/-- What `p` needs of a chain and of the crates. -/
structure Scope.Sound (p : Scope) (lib : Crates) (chain : List BlockData) : Prop where
  outpoints : p.outpoints → DistinctTxids chain
  registry : p.registry → DistinctTxids chain ∧ ReservedNames lib

/-- Everything in the ledger comes from heights below `n` and transactions in `T`. -/
structure Below (p : Scope) (lib : Crates) (n : Nat) (T : List Txid) (L : Ledger) : Prop where
  entries : ∀ id e, L.entries.get? id = some e → id.block < n ∧ e.reload = e
  balances : p.outpoints → ∀ o, (L.balances.get? o).isSome → o.txid ∈ T
  heights : p.outpoints → ∀ o, (L.heights.get? o).isSome → o.txid ∈ T
  names : p.registry → ∀ rune, (L.names.get? rune).isSome → lib.isReserved rune = true →
    ∃ height i, height < n ∧ i < usizeBound ∧ rune = lib.reserved height i
  etchings : p.registry → ∀ txid, (L.etchings.get? txid).isSome → txid ∈ T

theorem below_empty (p : Scope) (lib : Crates) (n : Nat) (T : List Txid) :
    Below p lib n T Ledger.empty where
  entries id e h := by simp [Ledger.empty] at h
  balances _ o h := by simp [Ledger.empty] at h
  heights _ o h := by simp [Ledger.empty] at h
  names _ rune h := by simp [Ledger.empty] at h
  etchings _ txid h := by simp [Ledger.empty] at h

theorem Below.mono {p : Scope} {lib : Crates} {n n' : Nat} {T T' : List Txid} {L : Ledger}
    (h : Below p lib n T L) (hn : n ≤ n') (hT : ∀ txid ∈ T, txid ∈ T') : Below p lib n' T' L where
  entries id e he := ⟨Nat.lt_of_lt_of_le (h.entries id e he).1 hn, (h.entries id e he).2⟩
  balances hp o ho := hT _ (h.balances hp o ho)
  heights hp o ho := hT _ (h.heights hp o ho)
  names hp rune hr hres := by
    obtain ⟨height, i, hlt, hi, heq⟩ := h.names hp rune hr hres
    exact ⟨height, i, Nat.lt_of_lt_of_le hlt hn, hi, heq⟩
  etchings hp txid ht := hT _ (h.etchings hp txid ht)

theorem Below.agrees {p : Scope} {lib : Crates} {n : Nat} {T : List Txid} {L L' : Ledger}
    (h : Below p lib n T L) (ha : Agrees p L L') : Below p lib n T L' where
  entries := ha.entries ▸ h.entries
  balances hp := (ha.outpoints hp).1 ▸ h.balances hp
  heights hp := (ha.outpoints hp).2 ▸ h.heights hp
  names hp := (ha.registry hp).1 ▸ h.names hp
  etchings hp := (ha.registry hp).2 ▸ h.etchings hp

/-! ### The invariant inside a block -/

/-- The record `r` takes `L` back to `start`, and `L` has nothing from outside. -/
structure Undoing (p : Scope) (lib : Crates) (start : Ledger) (n : Nat) (T : List Txid)
    (r : ChangeRecord) (L : Ledger) : Prop where
  entries : UndoesEntries start r L
  outpoints : p.outpoints → UndoesOutpoints start r L
  names : p.registry → UndoesNames start r L
  etchings : p.registry → UndoesEtchings start r L
  below : Below p lib n T L

namespace Undoing

variable {p : Scope} {lib : Crates} {start L : Ledger} {n : Nat} {T : List Txid}
  {r : ChangeRecord}

theorem new (h : Below p lib n T L) : Undoing p lib L n T ChangeRecord.new L where
  entries := undoesEntries_new L
  outpoints _ := undoesOutpoints_new L
  names _ := .nil _ _
  etchings _ := .nil _ _
  below := h

theorem spend (h : Undoing p lib start n T r L) {o : OutPoint} {l : RuneBalances} {height : Nat}
    (hb : L.balances.get? o = some (Multiset.ofList l)) (hh : L.heights.get? o = some height) :
    Undoing p lib start n T
      { r with removedOutpoints := r.removedOutpoints ++ [(o, l, height)] }
      { L with balances := L.balances.erase o, heights := L.heights.erase o } where
  entries := h.entries.congr rfl rfl rfl rfl
  outpoints hp := (h.outpoints hp).spend hb hh
  names hp := h.names hp
  etchings hp := h.etchings hp
  below := by
    refine ⟨h.below.entries, fun hp o' ho' => ?_, fun hp o' ho' => ?_, h.below.names,
      h.below.etchings⟩
    · rw [FinMap.get?_erase] at ho'
      split at ho'
      · cases ho'
      · exact h.below.balances hp o' ho'
    · rw [FinMap.get?_erase] at ho'
      split at ho'
      · cases ho'
      · exact h.below.heights hp o' ho'

theorem create (h : Undoing p lib start n T r L) {o : OutPoint} (B : Multiset RuneBalance)
    (height : Nat) (ho : o.txid ∈ T)
    (hfree : p.outpoints → start.balances.get? o = none ∧ start.heights.get? o = none) :
    Undoing p lib start n T { r with addedOutpoints := r.addedOutpoints ++ [o] }
      { L with balances := L.balances.insert o B, heights := L.heights.insert o height } where
  entries := h.entries.congr rfl rfl rfl rfl
  outpoints hp := (h.outpoints hp).create B height (hfree hp).1 (hfree hp).2
  names hp := h.names hp
  etchings hp := h.etchings hp
  below := by
    refine ⟨h.below.entries, fun hp o' ho' => ?_, fun hp o' ho' => ?_, h.below.names,
      h.below.etchings⟩
    · rw [FinMap.get?_insert] at ho'
      split at ho'
      · next heq => exact heq ▸ ho
      · exact h.below.balances hp o' ho'
    · rw [FinMap.get?_insert] at ho'
      split at ho'
      · next heq => exact heq ▸ ho
      · exact h.below.heights hp o' ho'

/-- An entry that is written back with other counts stays below the bound. -/
theorem below_insert {id : RuneId} {e e' : RuneEntry} (h : Below p lib n T L)
    (he : L.entries.get? id = some e) :
    Below p lib n T { L with entries := L.entries.insert id e'.reload } := by
  refine ⟨fun id' e₁ h₁ => ?_, h.balances, h.heights, h.names, h.etchings⟩
  dsimp only at h₁
  rw [FinMap.get?_insert] at h₁
  split at h₁
  · next heq =>
    cases h₁
    exact ⟨heq ▸ (h.entries id e he).1, RuneEntry.reload_reload e'⟩
  · exact h.entries id' e₁ h₁

theorem mint (h : Undoing p lib start n T r L) {id : RuneId} {e : RuneEntry}
    (he : L.entries.get? id = some e) (m : Nat) :
    Undoing p lib start n T { r with mints := r.mints.insertNew id e.mints }
      { L with entries := L.entries.insert id { e with mints := m }.reload } where
  entries := h.entries.mint he (h.below.entries id e he).2 m
  outpoints hp := (h.outpoints hp).congr rfl rfl rfl rfl
  names hp := h.names hp
  etchings hp := h.etchings hp
  below := below_insert h.below he

theorem burn (h : Undoing p lib start n T r L) {id : RuneId} {e : RuneEntry}
    (he : L.entries.get? id = some e) (m : Nat) :
    Undoing p lib start n T { r with burned := r.burned.insertNew id e.burned }
      { L with entries := L.entries.insert id { e with burned := m }.reload } where
  entries := h.entries.burn he (h.below.entries id e he).2 m
  outpoints hp := (h.outpoints hp).congr rfl rfl rfl rfl
  names hp := h.names hp
  etchings hp := h.etchings hp
  below := below_insert h.below he

theorem etch (h : Undoing p lib start n T r L) {id : RuneId} {rune : Rune} {txid : Txid}
    (e : RuneEntry) (runes : Nat) (hid : id.block < n) (htxid : txid ∈ T)
    (hfree : start.entries.get? id = none)
    (hname : p.registry → start.names.get? rune = none ∧ (lib.isReserved rune = true →
      ∃ height i, height < n ∧ i < usizeBound ∧ rune = lib.reserved height i))
    (hetching : p.registry → start.etchings.get? txid = none) :
    Undoing p lib start n T { r with addedRunes := r.addedRunes ++ [(rune, id, txid)] }
      { L with
        entries := L.entries.insert id e.reload
        names := L.names.insert rune id
        etchings := L.etchings.insert txid rune
        runes := runes } where
  entries := (h.entries.etch rune txid e.reload hfree).congr rfl rfl rfl rfl
  outpoints hp := (h.outpoints hp).congr rfl rfl rfl rfl
  names hp := (h.names hp).insert (a := (rune, id, txid)) id (hname hp).1
  etchings hp := (h.etchings hp).insert (a := (rune, id, txid)) rune (hetching hp)
  below := by
    refine ⟨fun id' e' he' => ?_, h.below.balances, h.below.heights, fun hp rune' hr hres => ?_,
      fun hp txid' ht => ?_⟩
    · dsimp only at he'
      rw [FinMap.get?_insert] at he'
      split at he'
      · next heq =>
        cases he'
        exact ⟨heq ▸ hid, RuneEntry.reload_reload e⟩
      · exact h.below.entries id' e' he'
    · rw [FinMap.get?_insert] at hr
      split at hr
      · next heq => exact heq ▸ (hname hp).2 (heq ▸ hres)
      · exact h.below.names hp rune' hr hres
    · rw [FinMap.get?_insert] at ht
      split at ht
      · next heq => exact heq ▸ htxid
      · exact h.below.etchings hp txid' ht

/-- The counters do not matter. -/
theorem reservedRunes (h : Undoing p lib start n T r L) (m : Nat) :
    Undoing p lib start n T r { L with reservedRunes := m } where
  entries := h.entries.congr rfl rfl rfl rfl
  outpoints hp := (h.outpoints hp).congr rfl rfl rfl rfl
  names hp := h.names hp
  etchings hp := h.etchings hp
  below := ⟨h.below.entries, h.below.balances, h.below.heights, h.below.names, h.below.etchings⟩

end Undoing

/-! ### Along a transaction -/

/-- The invariant on state and updater while the block at `height` is indexed. -/
structure Tracks (p : Scope) (lib : Crates) (start : Ledger) (height : Nat) (T : List Txid)
    (s : Store) (u : RuneUpdater) : Prop where
  atHeight : u.height = height
  rows : s.RowsEndAt height
  undoing : Undoing p lib start (height + 1) T u.changeRecord s.ledger

section transaction

variable {p : Scope} {lib : Crates} {start : Ledger} {height : Nat} {T₀ T : List Txid}
  {txid : Txid} {txIndex : Nat} {s : Store} {u : RuneUpdater}

/-- A step within the block, with what its record undoes. -/
theorem Tracks.step (h : Tracks p lib start height T s u) {s' : Store} {u' : RuneUpdater}
    (hwithin : WithinBlock u.height s s' ∧ SameBlock u u')
    (hundoing : Undoing p lib start (height + 1) T u'.changeRecord s'.ledger) :
    Tracks p lib start height T s' u' := by
  obtain ⟨hw, hu⟩ := hwithin
  rw [h.atHeight] at hw
  exact ⟨hu.height.trans h.atHeight, hw.rowsEnd h.rows, hundoing⟩

theorem Tracks.unallocated (h : Tracks p lib start height T s u) {o : OutPoint} {t t' : LotMap}
    {s' : Store} {u' : RuneUpdater} (hstep : Unallocated o s t u s' t' u') :
    Tracks p lib start height T s' u' := by
  refine h.step hstep.within ?_
  cases hstep with
  | absent _ => exact h.undoing
  | removed hb hh _ =>
    rw [Store.ledger_memRemoveOutpointToHeight, Store.ledger_memRemoveOutpointToRuneBalances]
    exact h.undoing.spend (by rw [Store.ledger_balances_get?, hb]; rfl) hh

theorem Tracks.minted (h : Tracks p lib start height T s u) {id : RuneId} {s' : Store}
    {amount : Option Nat} {u' : RuneUpdater} (hstep : Minted u id s s' amount u') :
    Tracks p lib start height T s' u' := by
  refine h.step hstep.within ?_
  cases hstep with
  | refused _ => exact h.undoing
  | minted he _ =>
    rw [Store.ledger_memInsertRuneIdToRuneEntry]
    exact h.undoing.mint he _

/-- The name of an etched rune was free before the block. -/
theorem Tracks.name_free (h : Tracks p lib start height T s u)
    (hstart : Below p lib height T₀ start) (hi : txIndex < usizeBound) (hp : p.registry)
    (hres : ReservedNames lib) {artifact : Artifact} {id : RuneId} {rune : Rune} {s₁ : Store}
    (hetched : Etched lib u txIndex artifact s s₁ (some (id, rune))) :
    start.names.get? rune = none ∧ (lib.isReserved rune = true →
      ∃ height' i, height' < height + 1 ∧ i < usizeBound ∧ rune = lib.reserved height' i) := by
  cases hetched with
  | named _ _ hnot hfree =>
    refine ⟨(h.undoing.names hp).free hfree, fun hyes => ?_⟩
    rw [hnot] at hyes
    cases hyes
  | reserved _ =>
    rw [h.atHeight]
    refine ⟨?_, fun _ => ⟨height, txIndex, Nat.lt_succ_self _, hi, rfl⟩⟩
    by_contra hne
    obtain ⟨height', i, hlt, hi', heq⟩ := hstart.names hp _ (Option.isSome_iff_ne_none.mpr hne)
      (hres.reserved height txIndex hi)
    have := (hres.injective _ _ _ _ hi hi' heq).1
    omega

theorem Tracks.etched (h : Tracks p lib start height T s u)
    (hstart : Below p lib height T₀ start) (hi : txIndex < usizeBound)
    (hnew : p.registry → txid ∉ T₀) (hmem : txid ∈ T) (hres : p.registry → ReservedNames lib)
    {artifact : Artifact} {id : RuneId} {rune : Rune} {s₁ : Store}
    (hetched : Etched lib u txIndex artifact s s₁ (some (id, rune))) (entry : RuneEntry) :
    Tracks p lib start height T (createdStore u txid id rune entry s₁)
      (created u txid id rune) := by
  have hrows₁ : s₁.RowsEndAt u.height := by
    rw [h.atHeight]
    have := hetched.within
    rw [h.atHeight] at this
    exact this.rowsEnd h.rows
  have hundoing₁ : Undoing p lib start (height + 1) T u.changeRecord s₁.ledger := by
    cases hetched with
    | named _ _ _ _ => exact h.undoing
    | reserved _ =>
      rw [h.atHeight, h.rows.ledger_memInsertStatisticReservedRunes]
      exact h.undoing.reservedRunes _
  -- neither the name nor the transaction is in the store before the block
  have hfree := fun hp => h.name_free hstart hi hp (hres hp) hetched
  refine ⟨h.atHeight, ?_, ?_⟩
  · have := createdStore_within u txid id rune entry s₁
    rw [h.atHeight] at this hrows₁
    exact this.rowsEnd hrows₁
  · rw [ledger_createdStore hrows₁]
    have hid := hetched.id_eq
    refine hundoing₁.etch entry _ ?_ hmem ?_ hfree ?_
    · rw [hid, h.atHeight]
      exact Nat.lt_succ_self _
    · by_contra hne
      obtain ⟨e, he⟩ := Option.ne_none_iff_exists'.mp hne
      have := (hstart.entries id e he).1
      rw [hid, h.atHeight] at this
      exact lt_irrefl _ this
    · intro hp
      by_contra hne
      exact hnew hp (hstart.etchings hp txid (Option.isSome_iff_ne_none.mpr hne))

theorem Tracks.outpointUpdated (h : Tracks p lib start height T s u)
    (hstart : Below p lib height T₀ start) (hnew : p.outpoints → txid ∉ T₀) (hmem : txid ∈ T)
    {ord : HashOrder} {tx : Transaction} {balances : LotMap} {vout : Nat} {b b' : LotMap}
    {s' : Store} {u' : RuneUpdater}
    (hstep : OutpointUpdated lib ord txIndex tx txid balances vout s b u s' b' u') :
    Tracks p lib start height T s' u' := by
  refine h.step hstep.within ?_
  cases hstep with
  | nothing _ => exact h.undoing
  | burns _ _ _ => exact h.undoing
  | created _ _ _ =>
    rw [Store.ledger_memInsertOutpointToHeight, Store.ledger_memInsertOutpointToRuneBalances]
    refine h.undoing.create _ _ hmem fun hp => ⟨?_, ?_⟩
    · by_contra hne
      exact hnew hp (hstart.balances hp _ (Option.isSome_iff_ne_none.mpr hne))
    · by_contra hne
      exact hnew hp (hstart.heights hp _ (Option.isSome_iff_ne_none.mpr hne))

theorem Tracks.indexRunes (h : Tracks p lib start height T s u)
    (hstart : Below p lib height T₀ start) (hi : txIndex < usizeBound)
    (hout : p.outpoints → txid ∉ T₀) (hreg : p.registry → txid ∉ T₀) (hmem : txid ∈ T)
    (hres : p.registry → ReservedNames lib) {ord : HashOrder} {tx : Transaction} {ans : Answers}
    {s' : Store} {u' : RuneUpdater}
    (hrun : Proc.Runs ans ((u.indexRunes lib ord txIndex tx txid).run s) (.ok s' u')) :
    Tracks p lib start height T s' u' :=
  indexRunes_preserves (P := Tracks p lib start height T)
    (fun _ _ _ _ _ _ _ h hstep => h.unallocated hstep)
    (fun _ _ _ _ _ _ h hstep => h.minted hstep)
    (fun _ _ _ entry _ _ _ h hetched _ =>
      h.etched hstart hi hreg hmem hres hetched entry)
    (fun _ _ _ _ _ _ _ _ h hstep => h.outpointUpdated hstart hout hmem hstep)
    (fun _ _ _ h => ⟨h.atHeight, h.rows, h.undoing⟩) h hrun

end transaction

/-! ### Along a block -/

/-- A completed block leaves a record that undoes it, and nothing from outside. -/
theorem indexBlock_undoing {p : Scope} {lib : Crates} {network : BitcoinNetwork}
    {chain : List BlockData} {b : BlockData} {height : Nat} {ord : HashOrder} {ans : Answers}
    {s s' : Store} (hsound : p.Sound lib (chain ++ [b]))
    (hbelow : Below p lib height (chainTxids chain) s.ledger) (hrows : s.RowsBelow height)
    (h : Proc.Runs ans ((indexBlock lib ord network height b).run s) (.ok s' ())) :
    ∃ r, s'.heightToChangeRecord.get? height = some r ∧
      Undoing p lib s.ledger (height + 1) (chainTxids (chain ++ [b])) r s'.ledger := by
  obtain ⟨s₁, u₁, s₂, htxs, hupdate, rfl⟩ := indexBlock_runs h
  obtain ⟨s₃, record, hfold, rfl⟩ := update_eq_ok.mp hupdate
  have hsub : ∀ txid ∈ chainTxids chain, txid ∈ chainTxids (chain ++ [b]) := by
    intro txid hmem
    rw [chainTxids_append]
    exact List.mem_append_left _ hmem
  have h₀ : Tracks p lib s.ledger height (chainTxids (chain ++ [b])) (startBlock height s)
      (RuneUpdater.new lib network height b.header.time s.memStatisticRunes) := by
    refine ⟨rfl, startBlock_rowsEndAt hrows.upTo, ?_⟩
    rw [startBlock_ledger hrows.upTo]
    exact .new (hbelow.mono (Nat.le_succ _) hsub)
  -- the record of the transactions so far undoes them
  have h₁ : Tracks p lib s.ledger height (chainTxids (chain ++ [b])) s₁ u₁ := by
    refine indexTransactions_invariant
      (P := fun _ => Tracks p lib s.ledger height (chainTxids (chain ++ [b]))) ?_ h₀ htxs
    intro i tx txid hget s u s' u' hP hrun
    have hblock : txid ∈ b.txids := List.mem_map.mpr ⟨(tx, txid), List.mem_of_getElem? hget, rfl⟩
    have hi : 0 + i < usizeBound := by
      have := (List.getElem?_eq_some_iff.mp hget).1
      have := b.txdataFits
      omega
    exact hP.indexRunes hbelow hi (fun hp => (hsound.outpoints hp).fresh hblock)
      (fun hp => (hsound.registry hp).1.fresh hblock)
      (by rw [chainTxids_append]; exact List.mem_append_right _ hblock)
      (fun hp => (hsound.registry hp).2) hrun
  -- and so does the record with the burned counts
  have h₃ : Undoing p lib s.ledger (height + 1) (chainTxids (chain ++ [b])) record s₃.ledger := by
    refine sync_foldlM_invariant
      (P := fun record s' => Undoing p lib s.ledger (height + 1) (chainTxids (chain ++ [b]))
        record s'.ledger) ?_ h₁.undoing hfold
    intro e _ record s record' s' hP hstep
    obtain ⟨entry, hentry, -, rfl, rfl⟩ := updateBurned_eq_ok.mp hstep
    rw [Store.ledger_memInsertRuneIdToRuneEntry]
    exact hP.burn hentry _
  refine ⟨record, ?_, h₃⟩
  rw [← h₁.atHeight]
  exact FinMap.get?_insert_self _ _ _

end RunesIndexer
