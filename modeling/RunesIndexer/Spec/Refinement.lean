import RunesIndexer.Spec.Protocol

/-! # The store means what the protocol says

    Along every run, through blocks, reorganisations and rollbacks, the store holds what
    the rune protocol says of the chain that is held: the balances of every outpoint, the
    entries and the names. A transaction of the code is a step of the protocol; inside a block
    the entries lag behind by what was burned, which the flush at the end makes up for.
-/

namespace RunesIndexer

open Resumption MonadicFold RuneUpdater

/-! ### The store after a transaction -/

theorem etchedRecord_injective {txid : Txid} {a b : Option (RuneId × Rune)}
    (h : etchedRecord txid a = etchedRecord txid b) : a = b := by
  cases a <;> cases b <;> simp_all [etchedRecord, Prod.ext_iff]

theorem Lists.perm {l l' : RuneBalances} {f : RuneId → Nat} (h : Lists l f) (hperm : l.Perm l') :
    Lists l' f where
  nodup := (hperm.map _).nodup_iff.mp h.nodup
  mem id n := by rw [← hperm.mem_iff, h.mem]

/-- What an outpoint of the ledger holds of a rune. -/
def Ledger.heldAt (L : Ledger) (o : OutPoint) (id : RuneId) : Nat :=
  (L.balances.get? o).elim 0 (heldIn · id)

theorem Store.ledger_heldAt (s : Store) : s.ledger.heldAt = s.heldAt := by
  funext o id
  unfold Ledger.heldAt Store.heldAt
  rw [Store.ledger_balances_get?]
  cases s.outpointToRuneBalances.get? o <;> rfl

/-- Every outpoint of the ledger holds something and lists what it holds. -/
def Ledger.Listed (L : Ledger) : Prop :=
  ∀ o l, L.balances.get? o = some (Multiset.ofList l) → l ≠ [] ∧ Lists l (L.heldAt o)

/-- The same of the store. -/
def Store.Listed (s : Store) : Prop :=
  ∀ o l, s.outpointToRuneBalances.get? o = some l → l ≠ [] ∧ Lists l (s.heldAt o)

/-- Every outpoint of the ledger has a height, that of its transaction. -/
def Ledger.DatedBy (L : Ledger) (height : Txid → Option Nat) : Prop :=
  ∀ o, (L.balances.get? o).isSome → ∃ h, L.heights.get? o = some h ∧ height o.txid = some h

theorem Store.listed_iff (s : Store) : s.ledger.Listed ↔ s.Listed := by
  unfold Ledger.Listed Store.Listed
  rw [s.ledger_heldAt]
  constructor
  · intro h o l hl
    exact h o l (by rw [Store.ledger_balances_get?, hl]; rfl)
  · intro h o l hl
    rw [Store.ledger_balances_get?, Option.map_eq_some_iff] at hl
    obtain ⟨l', hl', heq⟩ := hl
    have hperm : l'.Perm l := Multiset.coe_eq_coe.mp heq
    obtain ⟨hne, hlists⟩ := h o l' hl'
    exact ⟨fun hnil => hne (List.perm_nil.mp (hnil ▸ hperm)), hlists.perm hperm⟩

namespace Settlement

variable {lib : Crates} {tx : Transaction} {txid : Txid} {s s' : Store} {u u' : RuneUpdater}
  {etched : Option (RuneId × Rune)} {removed : List (OutPoint × RuneBalances × Nat)}
  {added : List OutPoint} {assigned : RuneId → Nat → Nat}

theorem heldAt_added (h : Settlement lib tx txid s s' u u' etched removed added assigned)
    {v : Nat} (hmem : ⟨txid, v⟩ ∈ added) (id : RuneId) :
    s'.heldAt ⟨txid, v⟩ id = assigned id v := by
  obtain ⟨l, hl, hlists, -⟩ := h.created v hmem
  rw [s'.heldAt_of_get? hl]
  exact hlists.sumAt id

theorem heldAt_others (h : Settlement lib tx txid s s' u u' etched removed added assigned)
    {o : OutPoint} (hmem : o ∉ added) (id : RuneId) :
    s'.heldAt o id = if o ∈ tx.spends then 0 else s.heldAt o id := by
  obtain ⟨hget, -⟩ := h.others o hmem
  unfold Store.heldAt
  rw [hget]
  by_cases hspent : o ∈ tx.spends
  · rw [if_pos hspent]
    by_cases hstored : (s.outpointToRuneBalances.get? o).isSome
    · rw [if_pos (h.removed_all o hspent hstored)]
      rfl
    · simp only [Option.not_isSome_iff_eq_none] at hstored
      rw [hstored, ite_self]
      rfl
  · have hkept : o ∉ removed.map Prod.fst := by
      intro hremoved
      obtain ⟨⟨o', balances, height⟩, hmem', rfl⟩ := List.mem_map.mp hremoved
      exact hspent ((h.mem_removed _ _ _).mp hmem').1
    rw [if_neg hspent, if_neg hkept]

/-- The balances after a transaction whose outputs were not stored before. -/
theorem heldAt (h : Settlement lib tx txid s s' u u' etched removed added assigned)
    (hnew : ∀ v, s.outpointToRuneBalances.get? ⟨txid, v⟩ = none) (o : OutPoint) (id : RuneId) :
    s'.heldAt o id =
      if o.txid = txid then
        if (lib.opReturns tx)[o.vout]? = some false then assigned id o.vout else 0
      else if o ∈ tx.spends then 0
      else s.heldAt o id := by
  obtain ⟨otxid, v⟩ := o
  dsimp only
  by_cases hown : otxid = txid
  · subst hown
    rw [if_pos rfl]
    by_cases hmem : (⟨otxid, v⟩ : OutPoint) ∈ added
    · obtain ⟨v', txOut, hout, hburns, -, heq⟩ := (h.mem_added _).mp hmem
      cases heq
      rw [h.heldAt_added hmem, if_pos (opReturns_getElem?.mpr ⟨txOut, hout, hburns⟩)]
    · have hzero : s.heldAt ⟨otxid, v⟩ id = 0 := by simp [Store.heldAt, hnew]
      rw [h.heldAt_others hmem, hzero, ite_self]
      by_cases hflag : (lib.opReturns tx)[v]? = some false
      · -- an output with a positive amount would have been written
        obtain ⟨txOut, hout, hburns⟩ := opReturns_getElem?.mp hflag
        rw [if_pos hflag]
        by_contra hne
        exact hmem ((h.mem_added _).mpr ⟨v, txOut, hout, hburns, ⟨id, by omega⟩, rfl⟩)
      · rw [if_neg hflag]
  · rw [if_neg hown]
    refine h.heldAt_others (fun hmem => ?_) id
    obtain ⟨v', -, -, -, -, heq⟩ := (h.mem_added _).mp hmem
    cases heq
    exact hown rfl

/-- The heights after a transaction whose outputs were not stored before. -/
theorem dated (h : Settlement lib tx txid s s' u u' etched removed added assigned)
    (hnew : ∀ v, s.outpointToRuneBalances.get? ⟨txid, v⟩ = none) {height : Txid → Option Nat}
    (hdated : s.ledger.DatedBy height) :
    s'.ledger.DatedBy (Function.update height txid (some u.height)) := by
  intro o hstored
  rw [Store.ledger_balances_get?, Option.isSome_map] at hstored
  show ∃ h, s'.outpointToHeight.get? o = some h ∧ _
  by_cases hmem : o ∈ added
  · obtain ⟨v, -, -, -, -, rfl⟩ := (h.mem_added _).mp hmem
    obtain ⟨l, -, -, hheight⟩ := h.created v hmem
    exact ⟨u.height, hheight, Function.update_self ..⟩
  · obtain ⟨hget, hheight⟩ := h.others o hmem
    rw [hget] at hstored
    split at hstored
    · cases hstored
    · next hkept =>
      have hne : o.txid ≠ txid := by
        rintro rfl
        rw [hnew o.vout] at hstored
        cases hstored
      rw [hheight, if_neg hkept, Function.update_of_ne hne]
      exact hdated o (by rw [Store.ledger_balances_get?, Option.isSome_map]; exact hstored)

/-- What is stored lists what it holds. -/
theorem listed (h : Settlement lib tx txid s s' u u' etched removed added assigned)
    (hlisted : s.Listed) : s'.Listed := by
  intro o l hl
  by_cases hmem : o ∈ added
  · obtain ⟨v, -, -, -, ⟨id, hid⟩, rfl⟩ := (h.mem_added _).mp hmem
    obtain ⟨l', hl', hlists, -⟩ := h.created v hmem
    rw [hl] at hl'
    cases hl'
    refine ⟨?_, (funext (h.heldAt_added hmem) : s'.heldAt ⟨txid, v⟩ = _) ▸ hlists⟩
    rintro rfl
    have hin := (hlists.mem id _).mpr ⟨hid, rfl⟩
    cases hin
  · obtain ⟨hget, -⟩ := h.others o hmem
    rw [hl] at hget
    split at hget
    · cases hget
    · have hsame : s'.heldAt o = s.heldAt o := by
        unfold Store.heldAt
        rw [hl, hget]
      rw [hsame]
      exact hlisted o l hget.symm

end Settlement

/-! ### The code and the protocol, transaction by transaction -/

/-- What the code takes for minted is what the protocol mints. -/
theorem mintedBy_eq (lib : Crates) (s : Store) (d : Located) (id : RuneId) :
    mintedBy lib d.id.block s d.tx id =
      ((mintAt lib d (entriesOf s.runeIdToRuneEntry)).filter (·.1 = id)).elim 0 Prod.snd := by
  unfold mintedBy mintAt entriesOf
  cases hdec : lib.decipher d.tx with
  | none => rfl
  | some artifact =>
    cases hmint : artifact.mint with
    | none => simp [hmint]
    | some id' =>
      cases he : s.runeIdToRuneEntry.get? id' with
      | none =>
        by_cases hid : id' = id
        · subst hid
          simp [hmint, he]
        · simp [hmint, he, hid]
      | some e =>
        have hreload : e.reload.mintable d.id.block = e.mintable d.id.block := rfl
        by_cases hid : id' = id
        · subst hid
          cases hm : e.mintable d.id.block <;>
            simp [hmint, he, hreload, hm, Except.toOption, Option.filter]
        · cases hm : e.mintable d.id.block <;>
            simp [hmint, he, hreload, hm, hid, Except.toOption, Option.filter]

/-- Between two transactions of the block `b`: the store and the updater stand for `P`. The
    entries do not count yet what the block has burned. -/
structure MeansAt (lib : Crates) (network : BitcoinNetwork) (chain : List BlockData)
    (b : BlockData) (P : Protocol) (i : Nat) (s : Store) (u : RuneUpdater) : Prop where
  registry : Registry lib (doneAt (lib.firstRuneHeight network) chain b i) s.ledger
  placed : Placed (doneAt (lib.firstRuneHeight network) chain b i) s.ledger
  flow : InFlight s.ledger u.burned fun _ => 0
  counted : u.runes = s.ledger.runes
  listed : s.Listed
  dated : s.ledger.DatedBy P.height
  balance : s.heldAt = P.balance
  entry : countBurned u.burned.amount (entriesOf s.runeIdToRuneEntry) = P.entry
  runes : u.runes = P.runes
  height_eq : u.height = lib.firstRuneHeight network + chain.length
  minimum : u.minimum = lib.minimumAtHeight network (lib.firstRuneHeight network + chain.length)
  blockTime : u.blockTime = b.header.time
  rows : s.RowsEndAt (lib.firstRuneHeight network + chain.length)

namespace MeansAt

variable {lib : Crates} {network : BitcoinNetwork} {chain : List BlockData} {b : BlockData}
  {P : Protocol} {i : Nat} {d : Located} {s s' : Store} {u u' : RuneUpdater} {view : ChainView}
  {ans : Answers} {ord : HashOrder}

/-- The names that the code looks up are those of the protocol. -/
theorem named (h : MeansAt lib network chain b P i s u) :
    (fun rune => (s.runeToRuneId.get? rune).isSome = true) = P.Named := by
  funext rune
  apply propext
  rw [Option.isSome_iff_exists]
  unfold Protocol.Named
  constructor
  · intro hheld
    obtain ⟨id, hid⟩ := hheld
    obtain ⟨e, he, hrune⟩ := (h.registry.runeToRuneId_iff rune id).mp hid
    refine ⟨id, { e.reload with burned := e.burned + u.burned.amount id }, ?_, hrune⟩
    rw [← h.entry]
    simp only [countBurned, entriesOf, he, Option.map_some]
    rfl
  · intro hnamed
    obtain ⟨id, e', he', hrune⟩ := hnamed
    rw [← h.entry] at he'
    simp only [countBurned, entriesOf, Option.map_map, Option.map_eq_some_iff] at he'
    obtain ⟨e, he, rfl⟩ := he'
    exact ⟨id, (h.registry.runeToRuneId_iff rune id).mpr ⟨e, he, hrune⟩⟩

/-- There is no rune at the position of the next transaction. -/
theorem entry_free (h : MeansAt lib network chain b P d.id.tx s u)
    (hblock : d.id.block = lib.firstRuneHeight network + chain.length) :
    s.ledger.entries.get? d.id = none := by
  have hfree := h.placed.entry_free
  rw [← hblock] at hfree
  exact hfree

/-- So nothing was burned of it. -/
theorem burned_next (h : MeansAt lib network chain b P d.id.tx s u)
    (hblock : d.id.block = lib.firstRuneHeight network + chain.length) :
    u.burned.amount d.id = 0 := by
  cases hget : u.burned.get? d.id with
  | none => exact FinMap.amount_of_get?_eq_none hget
  | some n =>
    have hknown := h.flow.keys d.id (by rw [hget]; rfl)
    unfold Ledger.Known at hknown
    rw [h.entry_free hblock] at hknown
    cases hknown

/-- The code settles a rune as the protocol does: what comes in is the same. -/
theorem settled_eq (h : MeansAt lib network chain b P i s u) (hheight : u.height = d.id.block)
    (etched : Option Rune) (id : RuneId) :
    outcomeOf lib u.height s d.tx (etched.map (Prod.mk d.id)) id =
      P.settled lib d etched id := by
  have hinputs : inputTotal s d.tx id = ∑ o ∈ d.tx.spends, P.balance o id := by
    unfold inputTotal
    rw [h.balance]
  have hminted : mintedBy lib u.height s d.tx id = P.minted lib d id := by
    unfold Protocol.minted
    rw [← h.entry, mintAt_countBurned, hheight]
    exact mintedBy_eq lib s d id
  unfold outcomeOf Protocol.settled unitsIn Protocol.units
  rw [hinputs, hminted]

/-- A completed transaction of the code is a step of the protocol. -/
theorem indexRunes (hres : ReservedNames lib) (hdistinct : DistinctTxids (chain ++ [b]))
    (hblock : d.id.block = lib.firstRuneHeight network + chain.length)
    (hget : b.txdata[d.id.tx]? = some (d.tx, d.txid)) (hreports : ReportsAt lib view ans d)
    (h : MeansAt lib network chain b P d.id.tx s u)
    (hrun : Proc.Runs ans ((u.indexRunes lib ord d.id.tx d.tx d.txid).run s) (.ok s' u')) :
    MeansAt lib network chain b (P.step lib network view b.header.time d) (d.id.tx + 1) s' u' := by
  have hheight : u.height = d.id.block := h.height_eq.trans hblock.symm
  have hphases := indexRunes_phases (h.height_eq ▸ h.rows) hrun
  obtain ⟨hwithin, hsame⟩ := indexRunes_within hrun
  obtain ⟨hregistry, hcounted⟩ :=
    Registry.indexRunes hres hdistinct hget h.height_eq ⟨h.registry, h.counted⟩ hphases
  have hfree : s.ledger.entries.get? ⟨u.height, d.id.tx⟩ = none := by
    rw [hheight]
    exact h.entry_free hblock
  have hnew := h.placed.outpoint_free hdistinct hget
  have hstored : ∀ v, s.outpointToRuneBalances.get? ⟨d.txid, v⟩ = none := fun v =>
    Store.ledger_balances_eq_none.mp (hnew v)
  -- the rune that is etched is the same on both sides
  obtain ⟨etched, hetched, hadded, hruns, hentries⟩ :=
    indexRunes_entries hheight (hblock ▸ h.minimum) hreports hrun
  obtain ⟨etched', removed, added, hsettled, hburned, -⟩ := indexRunes_outcome hrun
  obtain rfl := etchedRecord_injective
    (List.append_cancel_left (hsettled.addedRunes.symm.trans hadded))
  have hP : P.etched lib network view d = etched := by
    apply Option.ext
    intro rune
    rw [hetched, h.named]
    exact Protocol.etched_eq_some
  have hdated := hsettled.dated hstored h.dated
  rw [hheight] at hdated
  refine ⟨hregistry, h.placed.indexRunes hget h.height_eq hphases,
    h.flow.indexRunes hfree hnew hphases, hcounted, hsettled.listed h.listed, hdated, ?_, ?_, ?_,
    hsame.height.trans h.height_eq, hsame.minimum.trans h.minimum,
    hsame.blockTime.trans h.blockTime, (h.height_eq ▸ hwithin).rowsEnd h.rows⟩
  · funext o id
    rw [hsettled.heldAt hstored, h.settled_eq hheight, h.balance]
    unfold Protocol.step Protocol.balanceAfter
    rw [hP]
  · -- what this transaction burned comes on top of what the block burned before
    have hamounts : u'.burned.amount = fun id =>
        u.burned.amount id + (P.settled lib d etched id).burned := by
      funext id
      rw [hburned, h.settled_eq hheight]
    unfold Protocol.step
    rw [hP, hamounts, ← countBurned_add, hentries, ← h.blockTime, ← h.runes, ← h.entry,
      entriesAfter_countBurned fun _ => h.burned_next hblock]
  · unfold Protocol.step
    rw [hP, hruns, h.runes]

end MeansAt

/-! ### The flush -/

/-- The flush counts what the block burned. -/
theorem burned_entries {l : List (RuneId × Nat)} {s s' : Store} {record record' : ChangeRecord}
    (h : (l.foldlM updateBurned record).run s = .ok s' record') :
    entriesOf s'.runeIdToRuneEntry = countBurned (sumAt l) (entriesOf s.runeIdToRuneEntry) := by
  induction l generalizing s record with
  | nil =>
    obtain ⟨rfl, -⟩ := sync_foldlM_nil.mp h
    exact (countBurned_zero _).symm
  | cons e l ih =>
    obtain ⟨s₁, record₁, hstep, hrest⟩ := sync_foldlM_cons.mp h
    obtain ⟨entry, hentry, -, rfl, -⟩ := updateBurned_eq_ok.mp hstep
    rw [ih hrest]
    show countBurned (sumAt l) (entriesOf (s.runeIdToRuneEntry.insert e.1 _)) = _
    rw [entriesOf_insert, RuneEntry.reload_reload]
    funext id
    by_cases hid : id = e.1
    · subst hid
      simp only [countBurned, Function.update_self, entriesOf, hentry, Option.map_some, sumAt_cons,
        if_true, ← Nat.add_assoc]
      rfl
    · simp [countBurned, hid, Ne.symm hid]

/-- The flush leaves the outpoints alone. -/
theorem update_entries {ord : HashOrder} {u : RuneUpdater} {s s' : Store}
    (h : (u.update ord).run s = .ok s' ()) :
    entriesOf s'.runeIdToRuneEntry =
        countBurned u.burned.amount (entriesOf s.runeIdToRuneEntry) ∧
      s'.ledger.balances = s.ledger.balances ∧ s'.ledger.heights = s.ledger.heights := by
  constructor
  · obtain ⟨s₁, record, hfold, rfl⟩ := update_eq_ok.mp h
    rw [show u.burned.amount = sumAt (ord.iter (.blockBurned u.height) u.burned) from
      funext fun id => (sumAt_iter ord _ u.burned id).symm]
    show entriesOf s₁.runeIdToRuneEntry = _
    exact burned_entries hfold
  · exact update_invariant
      (P := fun L => L.balances = s.ledger.balances ∧ L.heights = s.ledger.heights)
      (fun L id e n hP _ => hP) ⟨rfl, rfl⟩ h

/-! ### Blocks and runs -/

/-- Between two blocks: the ledger stands for `P`. -/
structure Means (lib : Crates) (done : List Located) (L : Ledger) (P : Protocol) : Prop where
  registry : Registry lib done L
  placed : Placed done L
  flow : InFlight L ∅ fun _ => 0
  listed : L.Listed
  dated : L.DatedBy P.height
  balance : L.heldAt = P.balance
  entry : entriesOf L.entries = P.entry
  runes : L.runes = P.runes

theorem Means.empty (lib : Crates) : Means lib [] Ledger.empty .empty where
  registry := .empty lib
  placed := .empty
  flow := .empty
  listed o l h := by simp [Ledger.empty] at h
  dated o h := by simp [Ledger.empty] at h
  balance := by
    funext o id
    simp [Ledger.heldAt, Ledger.empty, Protocol.empty]
  entry := by
    funext id
    simp [entriesOf, Ledger.empty, Protocol.empty]
  runes := rfl

/-- A completed block does what its transactions mean, one after the other. -/
theorem Means.indexBlock {lib : Crates} {network : BitcoinNetwork} {chain : List BlockData}
    {b : BlockData} {P : Protocol} {s s' : Store} {view : ChainView} {ans : Answers}
    {ord : HashOrder} (hres : ReservedNames lib) (hdistinct : DistinctTxids (chain ++ [b]))
    (hreports : ∀ d ∈ b.located (lib.firstRuneHeight network + chain.length),
      ReportsAt lib view ans d)
    (hrows : s.RowsBelow (lib.firstRuneHeight network + chain.length))
    (h : Means lib (located (lib.firstRuneHeight network) chain) s.ledger P)
    (hrun : Proc.Runs ans
      ((indexBlock lib ord network (lib.firstRuneHeight network + chain.length) b).run s)
      (.ok s' ())) :
    Means lib (located (lib.firstRuneHeight network) (chain ++ [b])) s'.ledger
      (P.steps lib network view b.header.time
        (b.located (lib.firstRuneHeight network + chain.length))) := by
  have hregistry := indexBlock_invariant
    (P := fun i L u => Registry lib (doneAt (lib.firstRuneHeight network) chain b i) L ∧
      u.runes = L.runes)
    (Q := Registry lib (located (lib.firstRuneHeight network) (chain ++ [b])))
    hrows ⟨by rw [doneAt_zero]; exact h.registry, rfl⟩
    (fun i tx txid hget L u L' u' hu hP hstep =>
      Registry.indexRunes hres hdistinct hget hu hP hstep)
    (fun _ _ hP => by rw [← doneAt_length]; exact hP.1)
    (fun L id e n hQ he => hQ.congr (identities_insert he rfl) rfl rfl rfl rfl) hrun
  have hplaced := h.placed.indexBlock hrows hrun
  have hflow := indexBlock_conserved hdistinct hrows h.flow h.placed hrun
  obtain ⟨s₁, u₁, s₂, htxs, hupdate, rfl⟩ := indexBlock_runs hrun
  have hstart := startBlock_ledger hrows.upTo
  have h₀ : MeansAt lib network chain b
      (P.steps lib network view b.header.time
        ((b.located (lib.firstRuneHeight network + chain.length)).take 0)) 0
      (startBlock (lib.firstRuneHeight network + chain.length) s)
      (RuneUpdater.new lib network (lib.firstRuneHeight network + chain.length) b.header.time
        s.memStatisticRunes) := by
    refine ⟨?_, ?_, ?_, ?_, ?_, ?_, ?_, ?_, ?_, rfl, rfl, rfl, startBlock_rowsEndAt hrows.upTo⟩
    · rw [doneAt_zero, hstart]
      exact h.registry
    · rw [doneAt_zero, hstart]
      exact h.placed
    · rw [hstart]
      exact h.flow
    · rw [hstart]
      rfl
    · exact s.listed_iff.mp h.listed
    · rw [hstart]
      exact h.dated
    · rw [← Store.ledger_heldAt, hstart]
      exact h.balance
    · have hnone : FinMap.amount (∅ : LotMap) = fun _ => 0 := by
        funext id
        simp
      show countBurned (FinMap.amount (∅ : LotMap)) _ = _
      rw [hnone, countBurned_zero]
      exact h.entry
    · exact h.runes
  -- transaction by transaction
  have hend := indexTransactions_invariant
    (P := fun i s u => MeansAt lib network chain b
      (P.steps lib network view b.header.time
        ((b.located (lib.firstRuneHeight network + chain.length)).take i)) i s u)
    (fun i tx txid hget s u s' u' hP hrun => by
      rw [Nat.zero_add] at hP hrun ⊢
      rw [Protocol.steps_take_succ P hget]
      refine MeansAt.indexRunes
        (d := ⟨⟨lib.firstRuneHeight network + chain.length, i⟩, tx, txid⟩) hres hdistinct rfl hget
        (hreports _ ?_) hP hrun
      unfold BlockData.located
      exact List.mem_map.mpr ⟨((tx, txid), i), List.mem_zipIdx_iff_getElem?.mpr hget, rfl⟩)
    h₀ htxs
  rw [Nat.zero_add, List.take_of_length_le (by simp [BlockData.located])] at hend
  obtain ⟨hentries, hbalances, hheights⟩ := update_entries hupdate
  rw [Store.ledger_memInsertBlockHeader] at hregistry hplaced hflow ⊢
  have hheld : s₂.ledger.heldAt = s₁.ledger.heldAt := by
    unfold Ledger.heldAt
    rw [hbalances]
  refine ⟨hregistry, hplaced, hflow, ?_, ?_, ?_, hentries.trans hend.entry, ?_⟩
  · unfold Ledger.Listed
    rw [hheld, hbalances]
    exact s₁.listed_iff.mpr hend.listed
  · unfold Ledger.DatedBy
    rw [hbalances, hheights]
    exact hend.dated
  · rw [hheld, Store.ledger_heldAt]
    exact hend.balance
  · have hruns : s₂.ledger.runes = s₁.ledger.runes :=
      update_invariant (P := fun L => L.runes = s₁.ledger.runes) (fun L id e n hP _ => hP) rfl
        hupdate
    rw [hruns, ← hend.counted, hend.runes]

/-- The store holds what the protocol says. -/
structure Store.Represents (s : Store) (P : Protocol) : Prop where
  /-- A stored outpoint lists its positive balances, each rune once. -/
  stored : ∀ o l, s.outpointToRuneBalances.get? o = some l → l ≠ [] ∧ Lists l (P.balance o)
  absent : ∀ o, s.outpointToRuneBalances.get? o = none → ∀ id, P.balance o id = 0
  /-- The height of a stored outpoint is that of its transaction. -/
  heights : ∀ o, (s.outpointToRuneBalances.get? o).isSome →
    ∃ height, s.outpointToHeight.get? o = some height ∧ P.height o.txid = some height
  /-- Nothing is held of an unknown rune. -/
  known : ∀ o id, 0 < P.balance o id → (P.entry id).isSome
  entries : ∀ id, s.runeIdToRuneEntry.get? id = P.entry id
  names : ∀ rune id, s.runeToRuneId.get? rune = some id ↔
    ∃ e, P.entry id = some e ∧ e.spacedRune.rune = rune
  etchings : ∀ txid id e, s.memGetEtching txid = some (id, e) ↔
    P.entry id = some e ∧ e.etching = txid
  runes : s.memStatisticRunes = P.runes

/-- What the ledger stands for is what the store represents. -/
theorem Means.represents {lib : Crates} {done : List Located} {s : Store} {P : Protocol}
    (h : Means lib done s.ledger P)
    (hreloaded : ∀ id e, s.runeIdToRuneEntry.get? id = some e → e.reload = e) :
    s.Represents P := by
  have hentries : ∀ id, s.runeIdToRuneEntry.get? id = P.entry id := by
    intro id
    rw [← h.entry]
    show _ = (s.runeIdToRuneEntry.get? id).map RuneEntry.reload
    cases he : s.runeIdToRuneEntry.get? id with
    | none => rfl
    | some e => rw [Option.map_some, hreloaded id e he]
  have hbalance : s.heldAt = P.balance := s.ledger_heldAt.symm.trans h.balance
  have hlisted := s.listed_iff.mp h.listed
  refine ⟨fun o l hl => ?_, fun o hnone id => ?_, fun o ho => ?_, fun o id hpos => ?_, hentries,
    fun rune id => ?_, fun txid id e => ?_, h.runes⟩
  · rw [← hbalance]
    exact hlisted o l hl
  · rw [← hbalance]
    simp [Store.heldAt, hnone]
  · exact h.dated o (by rw [Store.ledger_balances_get?, Option.isSome_map]; exact ho)
  · rw [← hbalance] at hpos
    cases hl : s.outpointToRuneBalances.get? o with
    | none =>
      rw [show s.heldAt o id = 0 by simp [Store.heldAt, hl]] at hpos
      cases hpos
    | some l =>
      have hmem := ((hlisted o l hl).2.mem id _).mpr ⟨hpos, rfl⟩
      rw [← hentries]
      exact h.flow.balances o (Multiset.ofList l)
        (by rw [Store.ledger_balances_get?, hl]; rfl) _ (Multiset.mem_coe.mpr hmem)
  · rw [h.registry.runeToRuneId_iff, hentries]
  · rw [h.registry.memGetEtching_iff, hentries]

section runs

variable {lib : Crates} {network : BitcoinNetwork} {node : Node}
  {views : List BlockData → ChainView} {admits : List BlockData → Prop} {chain : List BlockData}
  {s : Store}

theorem Run.means (hres : ReservedNames lib)
    (hdistinct : ∀ chain, admits chain → DistinctTxids chain)
    (hreports : node.Reports lib network views admits) (h : Run lib network node admits chain s) :
    Means lib (located (lib.firstRuneHeight network) chain) s.ledger
      (Protocol.after lib network views chain) := by
  refine h.invariant (p := .all)
    (P := fun chain L => Means lib (located (lib.firstRuneHeight network) chain) L
      (Protocol.after lib network views chain))
    (fun chain hadmits => ⟨fun _ => hdistinct chain hadmits,
      fun _ => ⟨hdistinct chain hadmits, hres⟩⟩) ?_ (.empty lib) ?_
  · intro chain L L' hagrees hP
    exact hagrees.eq ▸ hP
  · intro chain b ord s s' hadmits hrows hP hrun
    rw [Protocol.after_append]
    exact hP.indexBlock hres (hdistinct _ hadmits) (hreports chain b hadmits) hrows hrun

/-- Along every run, with a node that reports the spent outputs as the chain has them, the
    store is what the protocol makes of the chain that is held, whatever was indexed, rolled
    back or indexed again on the way. -/
theorem Run.refines (hres : ReservedNames lib)
    (hdistinct : ∀ chain, admits chain → DistinctTxids chain)
    (hreports : node.Reports lib network views admits) (h : Run lib network node admits chain s) :
    s.Represents (Protocol.after lib network views chain) :=
  (h.means hres hdistinct hreports).represents (h.reloaded hres hdistinct)

/-- The premine stays where it was assigned. -/
theorem Run.refines_sample :
    ∃ s, Run Sample.crates .regtest Sample.answers Sample.FirstOutputs Sample.namingChain s ∧
      s.outpointToRuneBalances.get? ⟨1, 1⟩ = some [⟨Sample.runeId, 100⟩] ∧
      (Protocol.after Sample.crates .regtest (fun _ => Sample.view) Sample.namingChain).balance
        ⟨1, 1⟩ Sample.runeId = 100 := by
  obtain ⟨s, hrun, hP⟩ := Sample.naming_exec (P := fun s =>
    decide (s.outpointToRuneBalances.get? ⟨1, 1⟩ = some [⟨Sample.runeId, 100⟩])) (by decide)
  have hstored := of_decide_eq_true hP
  have hlists := ((Run.refines reservedNames_sample (fun _ hadmits => hadmits.1)
    Sample.answers_report hrun).stored ⟨1, 1⟩ _ hstored).2
  have hmem := (hlists.mem Sample.runeId 100).mp List.mem_cons_self
  exact ⟨s, hrun, hstored, hmem.2.symm⟩

end runs

end RunesIndexer
