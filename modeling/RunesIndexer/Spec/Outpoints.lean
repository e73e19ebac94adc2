import RunesIndexer.Spec.Conservation
import RunesIndexer.Model.Query

/-! # The outpoint store

    The two maps over outpoints hold the unspent outputs with runes of the held
    chain and nothing else: each key is an output that exists, can be spent and has
    not been, with the height of its block and positive balances of known runes.
-/

namespace RunesIndexer

open Resumption MonadicFold RuneUpdater

/-! ### The invariant -/

/-- The balances `B` at `o` are those of an unspent output of `d`. -/
structure OutpointOf (lib : Crates) (done : List Located) (L : Ledger) (o : OutPoint)
    (B : Multiset RuneBalance) (d : Located) : Prop where
  mem : d ∈ done
  txid : d.txid = o.txid
  height : L.heights.get? o = some d.id.block
  output : ∃ out, d.tx.output[o.vout]? = some out ∧ lib.burns out = false
  nonempty : B ≠ 0
  distinct : (B.map (·.runeId)).Nodup
  positive : ∀ b ∈ B, 0 < b.balance
  known : ∀ b ∈ B, L.Known b.runeId ∧ (b.runeId = d.id ∨ b.runeId.Precedes d.id)
  unspent : ∀ d' ∈ done, ∀ input ∈ d'.tx.input, input.previousOutput ≠ o

/-- Every stored outpoint is an unspent output, and both maps have the same keys. -/
structure UnspentOutputs (lib : Crates) (done : List Located) (L : Ledger) : Prop where
  keys : ∀ o, (L.heights.get? o).isSome → (L.balances.get? o).isSome
  sound : ∀ o B, L.balances.get? o = some B → ∃ d, OutpointOf lib done L o B d

variable {lib : Crates} {done : List Located} {L L' : Ledger}

/-- Other heights and more entries do not matter. -/
theorem OutpointOf.congr {o : OutPoint} {B : Multiset RuneBalance} {d : Located}
    (h : OutpointOf lib done L o B d) (hheight : L'.heights.get? o = L.heights.get? o)
    (hknown : ∀ id, L.Known id → L'.Known id) : OutpointOf lib done L' o B d where
  mem := h.mem
  txid := h.txid
  height := hheight.trans h.height
  output := h.output
  nonempty := h.nonempty
  distinct := h.distinct
  positive := h.positive
  known b hb := ⟨hknown _ (h.known b hb).1, (h.known b hb).2⟩
  unspent := h.unspent

/-- One more transaction that does not spend it. -/
theorem OutpointOf.append {o : OutPoint} {B : Multiset RuneBalance} {d d' : Located}
    (h : OutpointOf lib done L o B d) (hnot : ∀ input ∈ d'.tx.input, input.previousOutput ≠ o) :
    OutpointOf lib (done ++ [d']) L o B d where
  mem := List.mem_append_left _ h.mem
  txid := h.txid
  height := h.height
  output := h.output
  nonempty := h.nonempty
  distinct := h.distinct
  positive := h.positive
  known := h.known
  unspent d'' hd'' := by
    rcases List.mem_append.mp hd'' with hd'' | hd''
    · exact h.unspent d'' hd''
    · rw [List.mem_singleton] at hd''
      exact hd'' ▸ hnot

/-- A spent outpoint is gone. -/
theorem Spend.gone {o : OutPoint} {t t' : LotMap} {u u' : RuneUpdater}
    (h : Spend o (L, t, u) (L', t', u')) : L'.balances.get? o = none := by
  cases h with
  | absent h => exact h
  | removed _ _ _ => exact FinMap.get?_erase_self _ _

namespace UnspentOutputs

variable {tx : Transaction} {txid : Txid} {t t' : LotMap} {u u' : RuneUpdater}

/-- The maps stay, and no rune becomes unknown. -/
theorem congr (h : UnspentOutputs lib done L) (hbalances : L'.balances = L.balances)
    (hheights : L'.heights = L.heights) (hknown : ∀ id, L.Known id → L'.Known id) :
    UnspentOutputs lib done L' where
  keys o := by
    rw [hbalances, hheights]
    exact h.keys o
  sound o B hB := by
    rw [hbalances] at hB
    obtain ⟨d, hd⟩ := h.sound o B hB
    exact ⟨d, hd.congr (by rw [hheights]) hknown⟩

theorem spend (h : UnspentOutputs lib done L) {o : OutPoint}
    (hstep : Spend o (L, t, u) (L', t', u')) : UnspentOutputs lib done L' := by
  cases hstep with
  | absent _ => exact h
  | removed _ _ _ =>
    refine ⟨fun o' ho' => ?_, fun o' B hB => ?_⟩
    · dsimp only at ho' ⊢
      rw [FinMap.get?_erase] at ho' ⊢
      split at ho'
      · cases ho'
      · next hne =>
        rw [if_neg hne]
        exact h.keys o' ho'
    · dsimp only at hB
      rw [FinMap.get?_erase] at hB
      split at hB
      · cases hB
      · next hne =>
        obtain ⟨d, hd⟩ := h.sound o' B hB
        exact ⟨d, hd.congr (by dsimp only; rw [FinMap.get?_erase, if_neg hne]) fun _ => id⟩

/-- A written output is an unspent output of its transaction. -/
theorem output {d : Located} {m : LotMap} {vout : Nat} (h : UnspentOutputs lib done L)
    (hd : d ∈ done) (hheight : u.height = d.id.block)
    (hunspent : ∀ d' ∈ done, ∀ input ∈ d'.tx.input, input.previousOutput.txid ≠ d.txid)
    (hm : ∀ id n, m.get? id = some n → L.Known id ∧ 0 < n)
    (hbefore : ∀ id, L.Known id → id = d.id ∨ id.Precedes d.id)
    (hstep : Output lib d.tx d.txid (m, vout) (L, t, u) (L', t', u')) :
    UnspentOutputs lib done L' := by
  cases hstep with
  | nothing _ => exact h
  | burns _ _ _ => exact h
  | @created _ _ _ _ _ txOut ord site hsize hout hburns =>
    refine ⟨fun o ho => ?_, fun o B hB => ?_⟩
    · dsimp only at ho ⊢
      rw [FinMap.get?_insert] at ho ⊢
      split at ho
      · next heq => rw [if_pos heq]; rfl
      · next hne =>
        rw [if_neg hne]
        exact h.keys o ho
    · dsimp only at hB
      rw [FinMap.get?_insert] at hB
      split at hB
      · next heq =>
        cases hB
        subst heq
        -- the stored list has one entry for each rune of the map
        have hmem : ∀ b : RuneBalance, b ∈ Multiset.ofList
            ((ord.iter site m).map fun e => (⟨e.1, e.2⟩ : RuneBalance)) →
            m.get? b.runeId = some b.balance := by
          intro b hb
          obtain ⟨e, he, rfl⟩ := List.mem_map.mp (Multiset.mem_coe.mp hb)
          exact mem_iter.mp he
        refine ⟨d, hd, rfl, ?_, ⟨txOut, hout, hburns⟩, ?_, ?_, fun b hb => (hm _ _ (hmem b hb)).2,
          fun b hb => ?_, fun d' hd' input hinput heq => ?_⟩
        · dsimp only
          rw [FinMap.get?_insert_self, hheight]
        · intro hzero
          have hcard := congrArg Multiset.card hzero
          rw [Multiset.coe_card, List.length_map, Multiset.card_zero, ← Multiset.coe_card,
            ord.iter_perm site m] at hcard
          exact hsize hcard
        · rw [Multiset.map_coe, List.map_map, Multiset.coe_nodup]
          exact iter_nodup ord site m
        · have hk := (hm _ _ (hmem b hb)).1
          exact ⟨hk, hbefore _ hk⟩
        · exact hunspent d' hd' input hinput (congrArg OutPoint.txid heq)
      · next hne =>
        obtain ⟨d', hd'⟩ := h.sound o B hB
        exact ⟨d', hd'.congr (by dsimp only; rw [FinMap.get?_insert_ne _ _ hne]) fun _ => id⟩

/-! ### Transactions, blocks and runs -/

variable {first : Nat} {chain : List BlockData} {b : BlockData} {i : Nat}

theorem indexRunes (h : UnspentOutputs lib (doneAt first chain b i) L)
    (hdistinct : DistinctTxids (chain ++ [b])) (hinputs : EarlierInputs (chain ++ [b]))
    (hget : b.txdata[i]? = some (tx, txid)) (hheight : u.height = first + chain.length)
    (hflow : InFlight L u.burned fun _ => 0) (hplaced : Placed (doneAt first chain b i) L)
    (hstep : TxPhases lib i tx txid L u L' u') :
    UnspentOutputs lib (doneAt first chain b (i + 1)) L' := by
  have hplaced' := hplaced.indexRunes hget hheight hstep
  have hsucc := doneAt_succ first chain hget
  obtain ⟨⟨L₁, t₁, u₁⟩, ⟨L₂, t₂, u₂⟩, ⟨L₃, t₃, u₃⟩, a₁, a₂, burned, burned', u₄, ord, site,
    allBurned, hspend, hmint, hetch, -, ha, -, -, hheight₃, -, houtput, -, -⟩ :=
    hstep.allocated hflow (hheight ▸ hplaced.entry_free) (hplaced.outpoint_free hdistinct hget)
  dsimp only at ha hheight₃ houtput
  -- the inputs are gone before the transaction counts as one that spends them
  have h₁ : UnspentOutputs lib (doneAt first chain b (i + 1)) L₁ := by
    have hsound : UnspentOutputs lib (doneAt first chain b i) L₁ := hspend.invariant
      (P := fun x => UnspentOutputs lib (doneAt first chain b i) x.1)
      (fun input _ x x' hP hstep => hP.spend hstep) h
    have hgone := hspend.each (Q := fun input x => x.1.balances.get? input.previousOutput = none)
      (fun input x x' hstep => hstep.gone)
      (fun input input' x x' hnone hstep => hstep.frame.2.2.2 _ hnone)
    refine ⟨hsound.keys, fun o B hB => ?_⟩
    obtain ⟨d, hd⟩ := hsound.sound o B hB
    rw [hsucc]
    refine ⟨d, hd.append fun input hinput heq => ?_⟩
    have hnone := hgone input hinput
    rw [heq] at hnone
    dsimp only at hnone
    rw [hnone] at hB
    cases hB
  have h₃ : UnspentOutputs lib (doneAt first chain b (i + 1)) L₃ := by
    obtain ⟨⟨hbalances₂, hheights₂⟩, -, -, hknown₂⟩ := hmint.frame
    obtain ⟨⟨hbalances₃, hheights₃⟩, -, -, hmono₃, -⟩ := hetch.frame
    exact (h₁.congr hbalances₂ hheights₂ fun id => (hknown₂ id).mpr).congr hbalances₃ hheights₃
      hmono₃
  have hentries : L'.entries = L₃.entries := houtput.invariant
    (P := fun x => x.1.entries = L₃.entries)
    (fun _ _ _ _ hP hstep => hstep.frame.1.trans hP) rfl
  have hbefore : ∀ id, L₃.Known id →
      id = ⟨first + chain.length, i⟩ ∨ id.Precedes ⟨first + chain.length, i⟩ := by
    intro id hid
    obtain ⟨d, hd, rfl⟩ := hplaced'.entries id (by
      unfold Ledger.Known at hid ⊢
      rwa [hentries])
    rw [hsucc] at hd
    rcases List.mem_append.mp hd with hd | hd
    · exact .inr (mem_doneAt_precedes hd)
    · exact .inl (by rw [List.mem_singleton.mp hd])
  exact (houtput.invariant
    (P := fun x => UnspentOutputs lib (doneAt first chain b (i + 1)) x.1 ∧
      x.1.entries = L₃.entries ∧ x.2.2.height = u.height)
    (fun output hmem x x' hP hstep => by
      obtain ⟨hsound, hentries, hu⟩ := hP
      obtain ⟨hentries', hu', -, -⟩ := hstep.frame
      have hknown : x.1.Known = L₃.Known := by
        unfold Ledger.Known
        rw [hentries]
      refine ⟨hsound.output (d := ⟨⟨first + chain.length, i⟩, tx, txid⟩) ?_ (hu.trans hheight)
        (fun d' hd' input hinput => hinputs.doneAt hget hd' hinput) (fun id n hn => ?_)
        (by rw [hknown]; exact hbefore) hstep, hentries'.trans hentries, hu'.trans hu⟩
      · rw [hsucc]
        exact List.mem_append_right _ List.mem_cons_self
      · rw [hknown]
        exact ha _ (List.fst_mem_of_mem_zipIdx hmem) id n hn)
    ⟨h₃, rfl, hheight₃⟩).1

theorem indexBlock {network : BitcoinNetwork} {ord : HashOrder} {ans : Answers} {s s' : Store}
    (hdistinct : DistinctTxids (chain ++ [b])) (hinputs : EarlierInputs (chain ++ [b]))
    (hrows : s.RowsBelow (lib.firstRuneHeight network + chain.length))
    (hflow : InFlight s.ledger ∅ fun _ => 0)
    (hplaced : Placed (located (lib.firstRuneHeight network) chain) s.ledger)
    (h : UnspentOutputs lib (located (lib.firstRuneHeight network) chain) s.ledger)
    (hrun : Proc.Runs ans
      ((RunesIndexer.indexBlock lib ord network
        (lib.firstRuneHeight network + chain.length) b).run s) (.ok s' ())) :
    UnspentOutputs lib (located (lib.firstRuneHeight network) (chain ++ [b])) s'.ledger := by
  rw [← doneAt_length]
  refine indexBlock_invariant
    (P := fun i L u => InFlight L u.burned (fun _ => 0) ∧
      Placed (doneAt (lib.firstRuneHeight network) chain b i) L ∧
      UnspentOutputs lib (doneAt (lib.firstRuneHeight network) chain b i) L)
    hrows ⟨hflow, by rw [doneAt_zero]; exact hplaced, by rw [doneAt_zero]; exact h⟩ ?_
    (fun _ _ hP => hP.2.2) (fun L id e n hQ he => hQ.congr rfl rfl fun _ => known_insert rfl) hrun
  rintro i tx txid hget L u L' u' hu ⟨hflow, hplaced, hP⟩ hstep
  exact ⟨hflow.indexRunes (hu ▸ hplaced.entry_free) (hplaced.outpoint_free hdistinct hget) hstep,
    hplaced.indexRunes hget hu hstep,
    hP.indexRunes hdistinct hinputs hget hu hflow hplaced hstep⟩

end UnspentOutputs

/-- What consensus demands of a chain. -/
structure ConsensusChain (chain : List BlockData) : Prop where
  distinct : DistinctTxids chain
  inputs : EarlierInputs chain

instance (chain : List BlockData) : Decidable (ConsensusChain chain) :=
  decidable_of_iff (DistinctTxids chain ∧ EarlierInputs chain)
    ⟨fun h => ⟨h.1, h.2⟩, fun h => ⟨h.distinct, h.inputs⟩⟩

theorem consensusChain_sample : ∀ n, ConsensusChain (Sample.chain.take (n + 1))
  | 0 => by decide
  | n + 1 => by
    rw [List.take_of_length_le (by simp [Sample.chain])]
    decide

theorem Run.unspentOutputs {network : BitcoinNetwork} {node : Node} {chain : List BlockData}
    {s : Store} (h : Run lib network node ConsensusChain chain s) :
    UnspentOutputs lib (located (lib.firstRuneHeight network) chain) s.ledger := by
  have hinv : InFlight s.ledger ∅ (fun _ => 0) ∧
      Placed (located (lib.firstRuneHeight network) chain) s.ledger ∧
      UnspentOutputs lib (located (lib.firstRuneHeight network) chain) s.ledger := by
    refine h.invariant (p := .amounts)
      (P := fun chain L => InFlight L ∅ (fun _ => 0) ∧
        Placed (located (lib.firstRuneHeight network) chain) L ∧
        UnspentOutputs lib (located (lib.firstRuneHeight network) chain) L)
      (fun _ hd => ⟨fun _ => hd.distinct, nofun⟩) ?_ ⟨.empty, .empty, ?_⟩ ?_
    · rintro chain L L' hagrees ⟨hflow, hplaced, hP⟩
      obtain ⟨hbalances, hheights⟩ := hagrees.outpoints rfl
      refine ⟨hflow.agrees hagrees, hplaced.agrees hagrees,
        hP.congr hbalances.symm hheights.symm fun id hid => ?_⟩
      unfold Ledger.Known at hid ⊢
      rwa [← hagrees.entries]
    · refine ⟨fun o ho => ?_, fun o B hB => ?_⟩
      · simp [Ledger.empty] at ho
      · simp [Ledger.empty] at hB
    · rintro chain b ord s s' hadmits hrows ⟨hflow, hplaced, hP⟩ hrun
      exact ⟨indexBlock_conserved hadmits.distinct hrows hflow hplaced hrun,
        hplaced.indexBlock hrows hrun,
        hP.indexBlock hadmits.distinct hadmits.inputs hrows hflow hplaced hrun⟩
  exact hinv.2.2

/-! ### The balances query -/

/-- `v` is the report of balance `b`. -/
structure Reports (texts : Texts) (s : Store) (confirmations : Nat) (b : RuneBalance)
    (v : Interface.RuneBalance) : Prop where
  confirmations : v.confirmations = confirmations
  runeId : v.runeId = texts.printRuneId b.runeId
  amount : v.amount = b.balance
  entry : ∃ e, s.runeIdToRuneEntry.get? b.runeId = some e ∧ v.divisibility = e.divisibility ∧
    v.symbol = e.symbol.map Char.toString

/-- The answer for one requested outpoint: all its balances if it has any. -/
def PileAnswer (texts : Texts) (s : Store) (cur : Nat) (str : String)
    (pile : Option (List Interface.RuneBalance)) : Prop :=
  match (texts.parseOutPoint str).bind s.outpointToRuneBalances.get? with
  | none => pile = none
  | some l => ∃ o height vs, texts.parseOutPoint str = some o ∧
      s.outpointToHeight.get? o = some height ∧ height ≤ cur ∧ pile = some vs ∧
      List.Forall₂ (Reports texts s ((cur - height + 1) % 2 ^ 32)) l vs

/-- Balances of known runes are all reported. -/
theorem reports_filterMap {texts : Texts} {s : Store} {confirmations : Nat} {l : RuneBalances}
    (h : ∀ b ∈ l, (s.runeIdToRuneEntry.get? b.runeId).isSome) :
    List.Forall₂ (Reports texts s confirmations) l
      (l.filterMap (Query.runeBalance texts s confirmations)) := by
  induction l with
  | nil => exact .nil
  | cons b l ih =>
    obtain ⟨e, he⟩ := Option.isSome_iff_exists.mp (h b List.mem_cons_self)
    have hb : Query.runeBalance texts s confirmations b = some {
        confirmations := confirmations
        runeId := texts.printRuneId b.runeId
        amount := b.balance
        divisibility := e.divisibility
        symbol := e.symbol.map Char.toString } := by
      unfold Query.runeBalance Store.memGetRuneIdToRuneEntry
      rw [he]
      rfl
    rw [List.filterMap_cons_some hb]
    exact .cons ⟨rfl, rfl, rfl, e, he, rfl, rfl⟩
      (ih fun b' hb' => h b' (List.mem_cons_of_mem _ hb'))

theorem pileAnswer_pile {texts : Texts} {s : Store} {cur : Nat}
    (hsound : ∀ o l, s.outpointToRuneBalances.get? o = some l →
      (∃ height, s.outpointToHeight.get? o = some height ∧ height ≤ cur) ∧
      ∀ b ∈ l, (s.runeIdToRuneEntry.get? b.runeId).isSome) (str : String) :
    PileAnswer texts s cur str (Query.pile texts s cur str) := by
  unfold PileAnswer Query.pile Store.memGetOutpointToRuneBalances Store.memGetOutpointToHeight
  cases hparse : texts.parseOutPoint str with
  | none => rfl
  | some o =>
    rw [Option.bind_some]
    cases hl : s.outpointToRuneBalances.get? o with
    | none => simp only [hl]
    | some l =>
      obtain ⟨⟨height, hheight, hle⟩, hknown⟩ := hsound o l hl
      refine ⟨o, height, _, rfl, hheight, hle, ?_, reports_filterMap hknown⟩
      simp only [hl, hheight, Query.confirmations_eq hle]

theorem pileAnswer_map {texts : Texts} {s : Store} {cur : Nat} {outpoints : List String}
    (h : ∀ str, PileAnswer texts s cur str (Query.pile texts s cur str)) :
    List.Forall₂ (PileAnswer texts s cur) outpoints
      (outpoints.map (Query.pile texts s cur)) := by
  rw [List.forall₂_map_right_iff]
  exact List.forall₂_same.mpr fun str _ => h str

/-- Along every run the two outpoint maps hold exactly sound unspent outputs, so the
    query reports every stored balance with its confirmations. -/
theorem Run.outpoint_store {network : BitcoinNetwork} {node : Node} {chain : List BlockData}
    {s : Store} (h : Run lib network node ConsensusChain chain s) :
    s.outpointToRuneBalances.keys = s.outpointToHeight.keys ∧
    (∀ o l, s.outpointToRuneBalances.get? o = some l →
      ∃ d ∈ located (lib.firstRuneHeight network) chain, d.txid = o.txid ∧
        -- an output that can be spent and has not been
        (∃ out, d.tx.output[o.vout]? = some out ∧ lib.burns out = false) ∧
        (∀ d' ∈ located (lib.firstRuneHeight network) chain, ∀ input ∈ d'.tx.input,
          input.previousOutput ≠ o) ∧
        s.outpointToHeight.get? o = some d.id.block ∧
        (∃ cur, s.memLatestBlockHeight = some cur ∧ d.id.block ≤ cur) ∧
        l ≠ [] ∧ (l.map (·.runeId)).Nodup ∧
        ∀ b ∈ l, 0 < b.balance ∧ (b.runeId = d.id ∨ b.runeId.Precedes d.id) ∧
          ∃ e, s.runeIdToRuneEntry.get? b.runeId = some e ∧
            ∃ d' ∈ located (lib.firstRuneHeight network) chain,
              d'.id = b.runeId ∧ d'.txid = e.etching) ∧
    ∀ (texts : Texts) (outpoints : List String), outpoints.length ≤ Query.maxOutpoints →
      (chain = [] → Query.getRuneBalancesForOutputs texts outpoints s = .error .noBlock) ∧
      (chain ≠ [] → ∃ cur piles, s.memLatestBlockHeight = some cur ∧
        Query.getRuneBalancesForOutputs texts outpoints s = .ok (.ok piles) ∧
        List.Forall₂ (PileAnswer texts s cur) outpoints piles) := by
  have hunspent := h.unspentOutputs
  have hexact := h.mintsExact
  obtain ⟨lo, hwin⟩ := h.window
  have hstored : ∀ {o l}, s.outpointToRuneBalances.get? o = some l →
      s.ledger.balances.get? o = some (Multiset.ofList l) := by
    intro o l hl
    rw [Store.ledger_balances_get?, hl]
    rfl
  have hlatest : ∀ {d}, d ∈ located (lib.firstRuneHeight network) chain →
      ∀ {cur}, s.memLatestBlockHeight = some cur → d.id.block ≤ cur := by
    intro d hd cur hcur
    have hlt := mem_located_block hd
    have hne : chain ≠ [] := by
      rintro rfl
      cases hd
    have hlen := List.length_pos_iff.mpr hne
    rw [hwin.latestHeight, if_neg hne] at hcur
    cases hcur
    omega
  refine ⟨?_, fun o l hl => ?_, fun texts outpoints hsize => ⟨fun hempty => ?_, fun hne => ?_⟩⟩
  · rw [FinMap.keys_ext]
    intro o
    rw [← Option.isSome_map (f := Multiset.ofList), ← Store.ledger_balances_get?]
    refine ⟨fun ho => ?_, hunspent.keys o⟩
    obtain ⟨B, hB⟩ := Option.isSome_iff_exists.mp ho
    obtain ⟨d, hd⟩ := hunspent.sound o B hB
    exact Option.isSome_iff_exists.mpr ⟨_, hd.height⟩
  · obtain ⟨d, hd⟩ := hunspent.sound o _ (hstored hl)
    have hne : chain ≠ [] := by
      rintro rfl
      cases hd.mem
    refine ⟨d, hd.mem, hd.txid, hd.output, hd.unspent, hd.height,
      ⟨_, by rw [hwin.latestHeight, if_neg hne], ?_⟩, ?_, ?_, fun b hb => ?_⟩
    · exact hlatest hd.mem (by rw [hwin.latestHeight, if_neg hne])
    · rintro rfl
      exact hd.nonempty rfl
    · have := hd.distinct
      rwa [Multiset.map_coe, Multiset.coe_nodup] at this
    · have hmem := Multiset.mem_coe.mpr hb
      obtain ⟨hknown, hbefore⟩ := hd.known b hmem
      obtain ⟨e, he⟩ := Option.isSome_iff_exists.mp hknown
      exact ⟨hd.positive b hmem, hbefore, e, he, (hexact _ _ he).1⟩
  · unfold Query.getRuneBalancesForOutputs Query.curHeight
    rw [if_neg (by omega), hwin.latestHeight, if_pos hempty]
    rfl
  · obtain ⟨cur, hcur⟩ : ∃ cur, s.memLatestBlockHeight = some cur :=
      ⟨_, by rw [hwin.latestHeight, if_neg hne]⟩
    refine ⟨cur, outpoints.map (Query.pile texts s cur), hcur, ?_,
      pileAnswer_map (pileAnswer_pile fun o l hl => ?_)⟩
    · unfold Query.getRuneBalancesForOutputs Query.curHeight
      rw [if_neg (by omega), hcur]
      rfl
    · obtain ⟨d, hd⟩ := hunspent.sound o _ (hstored hl)
      exact ⟨⟨_, hd.height, hlatest hd.mem hcur⟩,
        fun b hb => (hd.known b (Multiset.mem_coe.mpr hb)).1⟩

theorem Run.outpoint_store_sample :
    ∃ s d, Run Sample.crates .regtest (fun _ => Answers.any) ConsensusChain Sample.chain s ∧
      s.outpointToRuneBalances.get? ⟨2, 1⟩ = some [⟨Sample.runeId, 105⟩] ∧
      d ∈ located 0 Sample.chain ∧ d.txid = 2 ∧ s.outpointToHeight.get? ⟨2, 1⟩ = some d.id.block := by
  obtain ⟨s, hrun, hget⟩ := sample_exec ConsensusChain consensusChain_sample
    (P := fun s => s.outpointToRuneBalances.get? ⟨2, 1⟩ = some [⟨Sample.runeId, 105⟩]) (by decide)
  have hget := of_decide_eq_true hget
  obtain ⟨d, hd, htxid, -, -, hheight, -⟩ := hrun.outpoint_store.2.1 ⟨2, 1⟩ _ hget
  exact ⟨s, d, hrun, hget, hd, htxid, hheight⟩

end RunesIndexer
